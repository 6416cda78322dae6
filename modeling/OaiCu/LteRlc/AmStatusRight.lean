import OaiCu.Lib.Lists
import OaiCu.LteRlc.AmMissing

/-!
# LTE RLC AM: when a STATUS PDU is complete

ACK_SN is the SN after the last full one such that the NACKs of all SNs before it fit in the grant.
The PDU is complete exactly if the last NACK of none of these SNs is cut off.
-/

namespace OaiCu.LteRlc

open BitStream Serial

variable {list : List RxSegment} {size n : ℕ} {sn : ℤ}

/-! ## The fields by their SNs -/

/-- The bits of the NACKs of `j` SNs from `sn` on. -/
def usedBits (list : List RxSegment) : ℕ → ℤ → ℕ
  | 0, _ => 0
  | j + 1, sn =>
      (if segmentFull list sn then 0 else nackBits list sn) + usedBits list j ((sn + 1) % 1024)

theorem usedBits_le : ∀ {j k : ℕ} (sn : ℤ), j ≤ k → usedBits list j sn ≤ usedBits list k sn
  | 0, _, _, _ => Nat.zero_le _
  | j + 1, 0, _, h => by omega
  | j + 1, k + 1, sn, h => by
      have := usedBits_le ((sn + 1) % 1024) (show j ≤ k by omega)
      rw [usedBits, usedBits]
      omega

theorem next_emod (sn : ℤ) (j : ℕ) : ((sn + 1) % 1024 + j) % 1024 = (sn + (j + 1 : ℕ)) % 1024 := by
  rw [Int.emod_add_emod]
  congr 1
  push_cast
  ring

/-- The NACKs are those of the SNs that are not full and whose NACKs fit with all before. -/
theorem mem_statusFields {f : NackField} : ∀ {n : ℕ} {sn : ℤ} {bits : ℕ} {ack : ℤ}, 0 ≤ sn → sn < 1024 →
    (f ∈ (statusFields list size n sn bits ack).1 ↔
      ∃ j < n, segmentFull list ((sn + j) % 1024) = false ∧ bits + usedBits list (j + 1) sn ≤ size ∧
        f ∈ nackFields list ((sn + j) % 1024))
  | 0, sn, bits, ack, _, _ => by simp [statusFields]
  | n + 1, sn, bits, ack, h0, h1 => by
      have hsn : (sn + (0 : ℕ)) % 1024 = sn := by
        rw [Nat.cast_zero, add_zero]
        exact Int.emod_eq_of_lt h0 h1
      have hn0 : 0 ≤ (sn + 1) % 1024 := Int.emod_nonneg _ (by decide)
      have hn1 : (sn + 1) % 1024 < 1024 := Int.emod_lt_of_pos _ (by decide)
      have hsplit : ∀ P : ℕ → Prop, (∃ j < n + 1, P j) ↔ P 0 ∨ ∃ j < n, P (j + 1) := by
        intro P
        constructor
        · rintro ⟨j, hj, hP⟩
          cases j with
          | zero => exact Or.inl hP
          | succ j => exact Or.inr ⟨j, by omega, hP⟩
        · rintro (hP | ⟨j, hj, hP⟩)
          · exact ⟨0, by omega, hP⟩
          · exact ⟨j + 1, by omega, hP⟩
      rw [statusFields, hsplit, hsn]
      simp only [← next_emod]
      cases hfull : segmentFull list sn with
      | true =>
          have hused : ∀ j, usedBits list (j + 1) sn = usedBits list j ((sn + 1) % 1024) := fun j => by
            rw [usedBits, hfull, if_pos rfl, Nat.zero_add]
          rw [if_pos rfl, mem_statusFields hn0 hn1]
          simp only [Bool.true_eq_false, false_and, false_or, hused]
      | false =>
          rw [if_neg (by decide)]
          have hused : ∀ j, usedBits list (j + 1) sn = nackBits list sn +
              usedBits list j ((sn + 1) % 1024) := fun j => by
            rw [usedBits, hfull]
            rfl
          simp only [hused]
          split
          · rename_i hroom
            refine iff_of_false List.not_mem_nil ?_
            rintro (⟨-, hle, -⟩ | ⟨j, -, -, hle, -⟩)
            · omega
            · omega
          · rename_i hroom
            rw [List.mem_append, mem_statusFields hn0 hn1]
            refine or_congr ?_ (exists_congr fun j => and_congr_right fun _ =>
              and_congr_right fun _ => ?_)
            · rw [usedBits]
              exact ⟨fun hf => ⟨trivial, by omega, hf⟩, fun hf => hf.2.2⟩
            · rw [Nat.add_assoc]

/-- ACK_SN is the SN after the last full one such that the NACKs before it fit, if there is one. -/
theorem ack_statusFields : ∀ {n : ℕ} {sn : ℤ} {bits : ℕ} {ack : ℤ}, 0 ≤ sn → sn < 1024 →
    bits ≤ size →
    ((statusFields list size n sn bits ack).2 = ack ∧
      ∀ f < n, segmentFull list ((sn + f) % 1024) = true → size < bits + usedBits list f sn) ∨
    ∃ f < n, segmentFull list ((sn + f) % 1024) = true ∧ bits + usedBits list f sn ≤ size ∧
      (statusFields list size n sn bits ack).2 = (sn + f + 1) % 1024 ∧
      ∀ g < n, f < g → segmentFull list ((sn + g) % 1024) = true → size < bits + usedBits list g sn
  | 0, sn, bits, ack, _, _, _ => Or.inl ⟨rfl, fun f hf => by omega⟩
  | n + 1, sn, bits, ack, h0, h1, hbits => by
      have hsn : (sn + (0 : ℕ)) % 1024 = sn := by
        rw [Nat.cast_zero, add_zero]
        exact Int.emod_eq_of_lt h0 h1
      have hn0 : 0 ≤ (sn + 1) % 1024 := Int.emod_nonneg _ (by decide)
      have hn1 : (sn + 1) % 1024 < 1024 := Int.emod_lt_of_pos _ (by decide)
      have hack : ∀ f : ℕ, ((sn + 1) % 1024 + f + 1) % 1024 = (sn + (f + 1 : ℕ) + 1) % 1024 := by
        intro f
        rw [add_assoc, Int.emod_add_emod]
        congr 1
        push_cast
        ring
      rw [statusFields]
      cases hfull : segmentFull list sn with
      | true =>
          rw [if_pos rfl]
          have hused : ∀ j, usedBits list (j + 1) sn = usedBits list j ((sn + 1) % 1024) := fun j => by
            rw [usedBits, hfull, if_pos rfl, Nat.zero_add]
          have ih : ((statusFields list size n ((sn + 1) % 1024) bits ((sn + 1) % 1024)).2 =
              (sn + 1) % 1024 ∧ _) ∨ _ := ack_statusFields hn0 hn1 hbits
          rcases ih with ⟨heq, hlater⟩ | ⟨f, hf, hff, hle, heq, hlater⟩
          · refine Or.inr ⟨0, by omega, by rw [hsn]; exact hfull, hbits, ?_, fun g hg hpos hgf => ?_⟩
            · rw [heq, Nat.cast_zero, add_zero]
            · obtain ⟨g, rfl⟩ := Nat.exists_eq_add_of_lt hpos
              rw [Nat.zero_add] at hgf hg ⊢
              rw [hused]
              exact hlater g (by omega) (by rw [next_emod]; exact hgf)
          · refine Or.inr ⟨f + 1, by omega, by rw [← next_emod]; exact hff, by rw [hused]; exact hle,
              by rw [heq, hack], fun g hg hpos hgf => ?_⟩
            obtain ⟨g, rfl⟩ := Nat.exists_eq_add_of_lt (show 0 < g by omega)
            rw [Nat.zero_add] at hgf hg hpos ⊢
            rw [hused]
            exact hlater g (by omega) (by omega) (by rw [next_emod]; exact hgf)
      | false =>
          rw [if_neg (by decide)]
          have hused : ∀ j, usedBits list (j + 1) sn = nackBits list sn +
              usedBits list j ((sn + 1) % 1024) := fun j => by
            rw [usedBits, hfull]
            rfl
          have hzero : segmentFull list ((sn + (0 : ℕ)) % 1024) ≠ true := by rw [hsn, hfull]; decide
          split
          · rename_i hroom
            refine Or.inl ⟨rfl, fun f hf hff => ?_⟩
            cases f with
            | zero => exact absurd hff hzero
            | succ f =>
                rw [hused]
                omega
          · rename_i hroom
            have ih : ((statusFields list size n ((sn + 1) % 1024) (bits + nackBits list sn) ack).2 =
                ack ∧ _) ∨ _ := ack_statusFields hn0 hn1 (by omega)
            rcases ih with ⟨heq, hlater⟩ | ⟨f, hf, hff, hle, heq, hlater⟩
            · refine Or.inl ⟨heq, fun f hf hff => ?_⟩
              cases f with
              | zero => exact absurd hff hzero
              | succ f =>
                  rw [hused, ← Nat.add_assoc]
                  exact hlater f (by omega) (by rw [next_emod]; exact hff)
            · refine Or.inr ⟨f + 1, by omega, by rw [← next_emod]; exact hff,
                by rw [hused, ← Nat.add_assoc]; exact hle, by rw [heq, hack], fun g hg hpos hgf => ?_⟩
              obtain ⟨g, rfl⟩ := Nat.exists_eq_add_of_lt (show 0 < g by omega)
              rw [Nat.zero_add] at hgf hg hpos ⊢
              rw [hused, ← Nat.add_assoc]
              exact hlater g (by omega) (by omega) (by rw [next_emod]; exact hgf)

/-! ## Complete PDUs -/

/-- The PDU fits in the grant and is read back without error; of every SN before ACK_SN all that
is missing is in a NACK, and no SN is in a NACK of which nothing is missing. -/
def StatusRight (rx : AmRx) (buffer : List UInt8) : Prop :=
  ∃ pdu n ack nacks, generateStatus rx buffer = some (pdu, n) ∧ n ≤ buffer.length ∧
    readControl (pdu.take n) = some (ack, nacks) ∧
    (∀ sn b, 0 ≤ sn → sn < 1024 → rel 1024 rx.vrR sn < rel 1024 rx.vrR ack →
      Missing rx.rxList sn b → ∃ nack ∈ nacks, (nack.sn : ℤ) = sn ∧ nack.Covers b) ∧
    ∀ nack ∈ nacks, ∃ b, Missing rx.rxList nack.sn b

/-- No NACK is cut off of an SN that stands before a full one up to which all NACKs fit in the grant
of `size` bytes. -/
def NoneShort (rx : AmRx) (size : ℕ) : Prop :=
  ∀ f < (rel 1024 rx.vrR rx.vrMs).toNat, segmentFull rx.rxList ((rx.vrR + f) % 1024) = true →
    15 + usedBits rx.rxList f rx.vrR ≤ 8 * size →
    ∀ j < f, ¬ Short rx.rxList ((rx.vrR + j) % 1024)

instance (rx : AmRx) (size : ℕ) : Decidable (NoneShort rx size) := by
  unfold NoneShort
  infer_instance

/-- What is known of the receiver in a run. -/
structure AmRx.Inv (rx : AmRx) : Prop extends rx.IsSn where
  vrH_nonneg : 0 ≤ rx.vrH
  vrH_lt : rx.vrH < 1024
  vrX_nonneg : 0 ≤ rx.vrX
  vrX_lt : rx.vrX < 1024
  sn_nonneg : ∀ s ∈ rx.rxList, 0 ≤ s.sn
  sn_lt : ∀ s ∈ rx.rxList, s.sn < 1024
  sorted : rx.rxList.Pairwise (SegLe rx.vrR)
  sound : Sound rx.rxList

section Right

variable {rx : AmRx}

theorem AmRx.Inv.block (h : rx.Inv) (sn : ℤ) :
    Block rx.rxList sn (segsOf rx.rxList sn) (restOf rx.rxList sn) :=
  LteRlc.block sn h.sorted

theorem AmRx.Inv.nonempty (h : rx.Inv) (sn : ℤ) : Nonempty (segsOf rx.rxList sn) := fun s hs =>
  (h.sound s (((h.block sn).mem_iff s).mp hs).1).2

theorem AmRx.Inv.segmentFull_iff (h : rx.Inv) (sn : ℤ) :
    segmentFull rx.rxList sn = true ↔ ∀ b, ¬ Missing rx.rxList sn b :=
  LteRlc.segmentFull_iff (h.block sn) (h.nonempty sn)

/-- The SN at a distance from VR(R). -/
theorem rel_at {j : ℕ} (hj : j < 1024) : rel 1024 rx.vrR ((rx.vrR + j) % 1024) = j := by
  rw [rel_emod, rel_eq_sub (by omega) (by omega)]
  omega

theorem AmRx.Inv.eq_at (h : rx.Inv) {sn : ℤ} (h0 : 0 ≤ sn) (h1 : sn < 1024) :
    (rx.vrR + (rel 1024 rx.vrR sn).toNat) % 1024 = sn := by
  have hnn := rel_nonneg (by decide : (0 : ℤ) < 1024) rx.vrR sn
  have hR0 := h.vrR_nonneg
  have hR1 := h.vrR_lt
  rw [Int.toNat_of_nonneg hnn, rel]
  omega

/-- The NACKs and ACK_SN that are read back. -/
theorem readControl_generateStatus (h : rx.Inv) {buffer : List UInt8} (h2 : 2 ≤ buffer.length) :
    ∃ pdu n, generateStatus rx buffer = some (pdu, n) ∧ n ≤ buffer.length ∧
      readControl (pdu.take n) = some (((sentFields rx buffer.length).2 % 2 ^ 10).toNat,
        (sentFields rx buffer.length).1.map NackField.toNack) := by
  obtain ⟨pdu, n, pad, hgen, hn, -, hbits⟩ := generateStatus_eq h.toIsSn h2
  exact ⟨pdu, n, hgen, hn, readControl_eq hbits⟩

/-- A NACK is for an SN that is not full, all NACKs up to which fit. -/
theorem mem_nacks (h : rx.Inv) {size : ℕ} {nack : Nack} :
    nack ∈ (sentFields rx size).1.map NackField.toNack ↔
      ∃ j < (rel 1024 rx.vrR rx.vrMs).toNat,
        segmentFull rx.rxList ((rx.vrR + j) % 1024) = false ∧
        15 + usedBits rx.rxList (j + 1) rx.vrR ≤ 8 * size ∧
        ∃ f ∈ nackFields rx.rxList ((rx.vrR + j) % 1024), f.toNack = nack := by
  rw [List.mem_map]
  constructor
  · rintro ⟨f, hf, rfl⟩
    obtain ⟨j, hj, hfull, hle, hmem⟩ := (mem_statusFields h.vrR_nonneg h.vrR_lt).mp hf
    exact ⟨j, hj, hfull, hle, f, hmem, rfl⟩
  · rintro ⟨j, hj, hfull, hle, f, hmem, rfl⟩
    exact ⟨f, (mem_statusFields h.vrR_nonneg h.vrR_lt).mpr ⟨j, hj, hfull, hle, hmem⟩, rfl⟩

/-- An SN is before ACK_SN if it is full, or before a full one, such that all NACKs before that fit. -/
theorem lt_ack_iff (h : rx.Inv) {size j : ℕ} (h2 : 2 ≤ size) :
    (j : ℤ) < rel 1024 rx.vrR ((sentFields rx size).2 % 2 ^ 10).toNat ↔
      ∃ f < (rel 1024 rx.vrR rx.vrMs).toNat, j ≤ f ∧
        segmentFull rx.rxList ((rx.vrR + f) % 1024) = true ∧
        15 + usedBits rx.rxList f rx.vrR ≤ 8 * size := by
  have hlt := rel_lt (by decide : (0 : ℤ) < 1024) rx.vrR rx.vrMs
  have hfields : ((statusFields rx.rxList (8 * size) (rel 1024 rx.vrR rx.vrMs).toNat rx.vrR 15
      rx.vrR).2 = rx.vrR ∧ _) ∨ _ :=
    ack_statusFields h.vrR_nonneg h.vrR_lt (show 15 ≤ 8 * size by omega)
  rcases hfields with ⟨heq, hnone⟩ | ⟨f, hf, hff, hle, heq, hlater⟩
  · have hack : ((sentFields rx size).2 % 2 ^ 10).toNat = rx.vrR := by
      have hR0 := h.vrR_nonneg
      have hR1 := h.vrR_lt
      rw [sentFields, heq, Int.emod_eq_of_lt hR0 (by omega), Int.toNat_of_nonneg hR0]
    rw [hack, rel_self]
    refine iff_of_false (by omega) ?_
    rintro ⟨f, hf, -, hff, hle⟩
    have := hnone f hf hff
    omega
  · have hack : (((sentFields rx size).2 % 2 ^ 10).toNat : ℤ) = (rx.vrR + (f + 1 : ℕ)) % 1024 := by
      rw [sentFields, heq, Int.toNat_of_nonneg (by omega)]
      push_cast
      omega
    rw [hack, rel_at (by omega)]
    constructor
    · intro hj
      exact ⟨f, hf, by omega, hff, hle⟩
    · rintro ⟨g, hg, hjg, hgf, hgle⟩
      by_contra hge
      have := hlater g hg (by omega) hgf
      omega

/-- **The STATUS PDU is complete exactly if no NACK is cut off that it needs.** -/
theorem statusRight_iff_missing (h : rx.Inv) {buffer : List UInt8} (h2 : 2 ≤ buffer.length) :
    StatusRight rx buffer ↔ NoneShort rx buffer.length := by
  have hms := rel_lt (by decide : (0 : ℤ) < 1024) rx.vrR rx.vrMs
  obtain ⟨pdu, n, hgen, hn, hread⟩ := readControl_generateStatus h h2
  constructor
  · rintro ⟨pdu', n', ack, nacks, hgen', -, hread', hcover, -⟩ f hf hff hle j hj hshort
    obtain ⟨rfl, rfl⟩ := Prod.mk.inj (Option.some.inj (hgen.symm.trans hgen'))
    obtain ⟨rfl, rfl⟩ := Prod.mk.inj (Option.some.inj (hread.symm.trans hread'))
    obtain ⟨b, hb, hnot⟩ := nacks_short h.sound (h.block _) hshort
    have h0 : 0 ≤ (rx.vrR + j) % 1024 := Int.emod_nonneg _ (by decide)
    have h1 : (rx.vrR + j) % 1024 < 1024 := Int.emod_lt_of_pos _ (by decide)
    have hlt : rel 1024 rx.vrR ((rx.vrR + j) % 1024) <
        rel 1024 rx.vrR ((sentFields rx buffer.length).2 % 2 ^ 10).toNat := by
      rw [rel_at (by omega)]
      exact (lt_ack_iff h h2).mpr ⟨f, hf, hj.le, hff, hle⟩
    obtain ⟨nack, hnack, hsn, hcov⟩ := hcover _ b h0 h1 hlt hb
    obtain ⟨i, hi, -, -, field, hfield, rfl⟩ := (mem_nacks h).mp hnack
    have hfsn := sn_of_mem_nackFields hfield
    rw [toNack_sn, hfsn] at hsn
    have hij : (rx.vrR + i) % 1024 = (rx.vrR + j) % 1024 := by omega
    exact hnot field (hij ▸ hfield) hcov
  · intro hnone
    refine ⟨pdu, n, _, _, hgen, hn, hread, fun sn b h0 h1 hlt hb => ?_, fun nack hnack => ?_⟩
    · have hnn := rel_nonneg (by decide : (0 : ℤ) < 1024) rx.vrR sn
      have hat := h.eq_at h0 h1
      rw [← Int.toNat_of_nonneg hnn, lt_ack_iff h h2] at hlt
      obtain ⟨f, hf, hjf, hff, hle⟩ := hlt
      have hnotfull : segmentFull rx.rxList sn = false := by
        cases hfull : segmentFull rx.rxList sn with
        | false => rfl
        | true => exact absurd hb ((h.segmentFull_iff sn).mp hfull b)
      have hjlt : (rel 1024 rx.vrR sn).toNat < f := by
        refine lt_of_le_of_ne hjf fun he => ?_
        rw [← he, hat, hnotfull] at hff
        cases hff
      have hshort := hnone f hf hff hle _ hjlt
      rw [hat] at hshort
      obtain ⟨field, hfield, hcov⟩ := nacks_cover h.sound (h.block sn) hshort hb
      refine ⟨field.toNack, (mem_nacks h).mpr ⟨(rel 1024 rx.vrR sn).toNat, by omega,
        by rw [hat]; exact hnotfull, ?_, field, by rw [hat]; exact hfield, rfl⟩, ?_, hcov⟩
      · have hused : usedBits rx.rxList ((rel 1024 rx.vrR sn).toNat + 1) rx.vrR ≤ _ :=
          usedBits_le rx.vrR (Nat.succ_le_of_lt hjlt)
        omega
      · rw [toNack_sn, sn_of_mem_nackFields hfield]
        omega
    · obtain ⟨j, hj, hfull, -, field, hfield, rfl⟩ := (mem_nacks h).mp hnack
      have hsn : (field.toNack.sn : ℤ) = (rx.vrR + j) % 1024 := by
        rw [toNack_sn, sn_of_mem_nackFields hfield]
        omega
      rw [hsn]
      by_contra hno
      have := (h.segmentFull_iff _).mpr (not_exists.mp hno)
      rw [hfull] at this
      cases this

end Right

/-! ## Runs of the receiver -/

inductive RxCall
  | recvPdu (buffer : List UInt8)
  | setTime (now : ℕ)
  | status
  | reestablishment

/-- A call, as far as it concerns the receiver. -/
def AmRx.step (cfg : AmConfig) (rx : AmRx) : RxCall → AmRx
  | .recvPdu buffer => (recvPdu cfg rx buffer).1
  | .setTime now => setTime cfg rx now
  | .status => statusSent rx
  | .reestablishment => {}

section Run

variable {rx : AmRx} {cfg : AmConfig}

theorem emod_range (x : ℤ) : 0 ≤ x % 1024 ∧ x % 1024 < 1024 :=
  ⟨Int.emod_nonneg _ (by decide), Int.emod_lt_of_pos _ (by decide)⟩

theorem skipFull_range (list : List RxSegment) : ∀ (fuel : ℕ) {sn : ℤ}, 0 ≤ sn ∧ sn < 1024 →
    0 ≤ skipFull list fuel sn ∧ skipFull list fuel sn < 1024
  | 0, _, h => h
  | fuel + 1, sn, h => by
      rw [skipFull]
      split
      · exact skipFull_range list fuel (emod_range _)
      · exact h

theorem SegLe.trans {base : ℤ} (a b c : RxSegment) (hab : SegLe base a b) (hbc : SegLe base b c) :
    SegLe base a c := by
  rcases hab with hab | ⟨hab, hso⟩
  · rcases hbc with hbc | ⟨hbc, -⟩
    · exact Or.inl (hab.trans hbc)
    · exact Or.inl (hbc ▸ hab)
  · rcases hbc with hbc | ⟨hbc, hso'⟩
    · exact Or.inl (hab ▸ hbc)
    · exact Or.inr ⟨hab.trans hbc, hso.trans hso'⟩

/-- The segments in the list, relative to VR(R). -/
structure ListInv (list : List RxSegment) (vrR : ℤ) : Prop where
  base_nonneg : 0 ≤ vrR
  base_lt : vrR < 1024
  sn_nonneg : ∀ s ∈ list, 0 ≤ s.sn
  sn_lt : ∀ s ∈ list, s.sn < 1024
  sorted : list.Pairwise (SegLe vrR)
  sound : Sound list

theorem AmRx.Inv.listInv (h : rx.Inv) : ListInv rx.rxList rx.vrR :=
  ⟨h.vrR_nonneg, h.vrR_lt, h.sn_nonneg, h.sn_lt, h.sorted, h.sound⟩

theorem AmRx.Inv.of_list {rxList : List RxSegment} {vrR vrX vrMs vrH : ℤ}
    (hlist : ListInv rxList vrR) (hMs : 0 ≤ vrMs ∧ vrMs < 1024) (hH : 0 ≤ vrH ∧ vrH < 1024)
    (hX : 0 ≤ vrX ∧ vrX < 1024) (triggered : Bool) (tCurrent tReorderingStart tProhibit : ℕ)
    (rxSize : ℤ) :
    AmRx.Inv ⟨vrR, vrX, vrMs, vrH, triggered, tCurrent, tReorderingStart, tProhibit, rxList,
      rxSize⟩ where
  vrR_nonneg := hlist.base_nonneg
  vrR_lt := hlist.base_lt
  vrMs_nonneg := hMs.1
  vrMs_lt := hMs.2
  vrH_nonneg := hH.1
  vrH_lt := hH.2
  vrX_nonneg := hX.1
  vrX_lt := hX.2
  sn_nonneg := hlist.sn_nonneg
  sn_lt := hlist.sn_lt
  sorted := hlist.sorted
  sound := hlist.sound

/-- VR(R) goes on by one, and its segments leave the list. -/
theorem ListInv.advance {list : List RxSegment} {vrR : ℤ} (h : ListInv list vrR) :
    ListInv (list.dropWhile fun l => l.sn = vrR) ((vrR + 1) % 1024) := by
  have hsub : (list.dropWhile fun l => l.sn = vrR).Sublist list := List.dropWhile_sublist _
  have hpos : ∀ s ∈ list.dropWhile fun l => l.sn = vrR, 1 ≤ rel 1024 vrR s.sn := by
    have hne : ∀ s ∈ list, s.sn ≠ vrR → 1 ≤ rel 1024 vrR s.sn := fun s hs hsn => by
      have hnn := rel_nonneg (by decide : (0 : ℤ) < 1024) vrR s.sn
      by_contra hlt
      exact hsn ((rel_eq_zero h.base_nonneg h.base_lt (h.sn_nonneg s hs) (h.sn_lt s hs)).mp
        (by omega))
    have hhead := List.head?_dropWhile_not (fun l : RxSegment => l.sn = vrR) list
    have hsorted := h.sorted.sublist hsub
    have hin := fun s => hsub.subset (a := s)
    cases hd : list.dropWhile fun l => l.sn = vrR with
    | nil => exact nofun
    | cons n t =>
        rw [hd] at hhead hsorted hin
        have hn := hne n (hin n List.mem_cons_self) (by simpa using hhead)
        refine List.forall_mem_cons.mpr ⟨hn, fun s hs => ?_⟩
        rcases (List.pairwise_cons.mp hsorted).1 s hs with hlt | ⟨heq, -⟩
        · omega
        · rwa [heq] at hn
  have hrel : ∀ s ∈ list.dropWhile fun l => l.sn = vrR,
      rel 1024 ((vrR + 1) % 1024) s.sn = rel 1024 vrR s.sn - 1 := fun s hs => by
    rw [rel_emod_base]
    exact rel_rebase (by decide) (by decide) (hpos s hs)
  refine ⟨(emod_range _).1, (emod_range _).2, fun s hs => h.sn_nonneg s (hsub.subset hs),
    fun s hs => h.sn_lt s (hsub.subset hs), ?_, fun s hs => h.sound s (hsub.subset hs)⟩
  refine (h.sorted.sublist hsub).imp_of_mem fun {a b} ha hb hab => ?_
  rw [SegLe, hrel a ha, hrel b hb]
  rcases hab with hab | hab
  · exact Or.inl (by omega)
  · exact Or.inr hab

theorem moveFull_inv : ∀ (fuel : ℕ) {list : List RxSegment} {vrR : ℤ} (moved : List RxSegment),
    ListInv list vrR → ListInv (moveFull fuel list vrR moved).1 (moveFull fuel list vrR moved).2.1
  | 0, _, _, _, h => h
  | fuel + 1, list, vrR, moved, h => by
      rw [moveFull]
      split
      · exact moveFull_inv fuel _ h.advance
      · exact h

/-- A new segment is put in its place. -/
theorem ListInv.add {s : RxSegment} (h : ListInv rx.rxList rx.vrR) (h0 : 0 ≤ s.sn)
    (h1 : s.sn < 1024) (hs : s.so < 2 ^ 15 ∧ (s.so : ℤ) ≤ s.lastByte) :
    ListInv (segmentListAdd (snCompareRx rx) rx.rxList s) rx.vrR := by
  have hmem : ∀ x, x ∈ segmentListAdd (snCompareRx rx) rx.rxList s ↔ x = s ∨ x ∈ rx.rxList :=
    fun x => List.mem_orderedInsert _
  have hmod : ∀ x, 0 ≤ x → x < 1024 → modulusRx rx x = rel 1024 rx.vrR x := fun x hx0 hx1 =>
    sub_wrap_eq_rel h.base_nonneg h.base_lt hx0 hx1
  have hall : ∀ {P : RxSegment → Prop}, P s → (∀ x ∈ rx.rxList, P x) →
      ∀ x ∈ segmentListAdd (snCompareRx rx) rx.rxList s, P x := fun hs hl x hx => by
    rcases (hmem x).mp hx with rfl | hx
    · exact hs
    · exact hl x hx
  refine ⟨h.base_nonneg, h.base_lt, hall h0 h.sn_nonneg, hall h1 h.sn_lt, ?_, hall hs h.sound⟩
  refine Lists.pairwise_orderedInsert h.sorted SegLe.trans (fun y hy hafter => ?_)
    fun y hy hbefore => ?_
  · rw [snCompareRx, hmod _ (h.sn_nonneg y hy) (h.sn_lt y hy), hmod _ h0 h1] at hafter
    rcases hafter with hlt | ⟨hsn, hso⟩
    · exact Or.inl (by omega)
    · exact Or.inr ⟨hsn.symm, by omega⟩
  · rw [snCompareRx, hmod _ (h.sn_nonneg y hy) (h.sn_lt y hy), hmod _ h0 h1] at hbefore
    by_cases hsn : y.sn = s.sn
    · exact Or.inr ⟨hsn, by by_contra hso; exact hbefore (Or.inr ⟨hsn, by omega⟩)⟩
    · refine Or.inl (lt_of_le_of_ne (by by_contra hlt; exact hbefore (Or.inl (by omega))) ?_)
      exact fun he => hsn (rel_inj (h.sn_nonneg y hy) (h.sn_lt y hy) h0 h1 he)

/-- The part of the state that concerns the windows. -/
def SameWindow (rx rx' : AmRx) : Prop :=
  rx'.vrR = rx.vrR ∧ rx'.vrMs = rx.vrMs ∧ rx'.vrH = rx.vrH ∧ rx'.vrX = rx.vrX ∧
    rx'.rxList = rx.rxList

theorem AmRx.Inv.of_same {rx' : AmRx} (h : rx.Inv) (hs : SameWindow rx rx') : rx'.Inv := by
  obtain ⟨hR, hMs, hH, hX, hlist⟩ := hs
  refine AmRx.Inv.of_list (?_ : ListInv rx'.rxList rx'.vrR) ?_ ?_ ?_ _ _ _ _ _
  · rw [hlist, hR]
    exact h.listInv
  · rw [hMs]
    exact ⟨h.vrMs_nonneg, h.vrMs_lt⟩
  · rw [hH]
    exact ⟨h.vrH_nonneg, h.vrH_lt⟩
  · rw [hX]
    exact ⟨h.vrX_nonneg, h.vrX_lt⟩

theorem triggerStatus_same (p : Bool) (rx : AmRx) : SameWindow rx (triggerStatus p rx) := by
  cases p
  · exact ⟨rfl, rfl, rfl, rfl, rfl⟩
  · exact ⟨rfl, rfl, rfl, rfl, rfl⟩

/-- `rlc_am_reception_actions` up to reassembly, from VR(MS) on. -/
theorem moveFrom_inv (hlist : ListInv rx.rxList rx.vrR) (hMs : 0 ≤ rx.vrMs ∧ rx.vrMs < 1024)
    (hH : 0 ≤ rx.vrH ∧ rx.vrH < 1024) (hX : 0 ≤ rx.vrX ∧ rx.vrX < 1024) (x : ℤ) :
    (moveToReassembly rx x).1.Inv := by
  have hskip := skipFull_range rx.rxList 1024 hMs
  have hmove := moveFull_inv 1024 [] hlist
  unfold moveToReassembly
  by_cases hx : modulusRx rx x ≥ modulusRx rx rx.vrH
  · simp only [if_pos hx]
    split
    · exact AmRx.Inv.of_list hmove hskip (emod_range _) hX _ _ _ _ _
    · exact AmRx.Inv.of_list hlist hskip (emod_range _) hX _ _ _ _ _
  · simp only [if_neg hx]
    split
    · exact AmRx.Inv.of_list hmove hskip hH hX _ _ _ _ _
    · exact AmRx.Inv.of_list hlist hskip hH hX _ _ _ _ _

/-- A timer that is started takes VR(H) for VR(X). -/
theorem AmRx.Inv.start (h : rx.Inv) (t : ℕ) :
    AmRx.Inv { rx with tReorderingStart := t, vrX := rx.vrH } :=
  AmRx.Inv.of_list h.listInv ⟨h.vrMs_nonneg, h.vrMs_lt⟩ ⟨h.vrH_nonneg, h.vrH_lt⟩
    ⟨h.vrH_nonneg, h.vrH_lt⟩ _ _ _ _ _

/-- `rlc_am_reception_actions` from reassembly on. -/
theorem reorderingTimer_inv (h : rx.Inv) : (reorderingTimer rx).Inv := by
  have hstop : AmRx.Inv { rx with tReorderingStart := 0 } := h.of_same ⟨rfl, rfl, rfl, rfl, rfl⟩
  unfold reorderingTimer
  generalize (if rx.vrX < rx.vrR then rx.vrX + 1024 else rx.vrX) = vrX
  by_cases hc : rx.tReorderingStart ≠ 0 ∧ (vrX = rx.vrR ∨ vrX > rx.vrR + 512)
  · simp only [if_pos hc]
    split
    · exact hstop.start _
    · exact hstop
  · simp only [if_neg hc]
    split
    · exact h.start _
    · exact h

/-- `check_t_reordering`. -/
theorem checkTReordering_inv (h : rx.Inv) : (checkTReordering cfg rx).Inv := by
  have hskip := skipFull_range rx.rxList 1024 ⟨h.vrX_nonneg, h.vrX_lt⟩
  have hexpired : AmRx.Inv
      { rx with tReorderingStart := 0, vrMs := skipFull rx.rxList 1024 rx.vrX } :=
    AmRx.Inv.of_list h.listInv hskip ⟨h.vrH_nonneg, h.vrH_lt⟩ ⟨h.vrX_nonneg, h.vrX_lt⟩ _ _ _ _ _
  unfold checkTReordering
  split
  · exact h
  · dsimp only
    split
    · exact (hexpired.start rx.tCurrent).of_same ⟨rfl, rfl, rfl, rfl, rfl⟩
    · exact hexpired.of_same ⟨rfl, rfl, rfl, rfl, rfl⟩

/-- The data of a segment behind its header. -/
theorem of_dataStart {buffer : List UInt8} {sn : ℤ} {so sum dataStart : ℕ} {isLast : Bool}
    {s : RxSegment} (hso : so < 2 ^ 15)
    (h : (if buffer.length ≤ dataStart then none
      else if sum ≥ buffer.length - dataStart then none
      else some { sn, so, isLast, data := buffer, dataOffset := dataStart }) = some s) :
    s.sn = sn ∧ s.so < 2 ^ 15 ∧ (s.so : ℤ) ≤ s.lastByte := by
  split at h
  · cases h
  split at h
  · cases h
  obtain rfl := Option.some.inj h
  refine ⟨rfl, hso, ?_⟩
  simp only [RxSegment.lastByte, RxSegment.size]
  omega

/-- A segment that is stored. -/
theorem readSegment_spec {buffer : List UInt8} {hdr : DataHeader} {decoder : NrRlc.Decoder}
    {s : RxSegment} (h : readSegment buffer hdr decoder = some s) :
    s.sn = hdr.sn ∧ s.so < 2 ^ 15 ∧ (s.so : ℤ) ≤ s.lastByte := by
  unfold readSegment at h
  cases hrf : hdr.rf with
  | true =>
      simp only [hrf, if_true, Option.bind_eq_bind, Option.bind_eq_some_iff] at h
      obtain ⟨⟨lsf, d₁⟩, -, ⟨so, d₂⟩, hso, ⟨sum, d₃⟩, -, h⟩ := h
      exact of_dataStart (NrRlc.Decoder.getBits_lt hso) h
  | false =>
      simp only [hrf, Bool.false_eq_true, if_false, Option.bind_eq_bind, Option.bind_some,
        Option.bind_eq_some_iff] at h
      obtain ⟨⟨sum, d₃⟩, -, h⟩ := h
      exact of_dataStart (by decide) h

theorem acceptSegment_spec {buffer : List UInt8} {hdr : DataHeader} {decoder : NrRlc.Decoder}
    {s : RxSegment} (h : acceptSegment cfg rx buffer hdr decoder = some s) :
    s.sn = hdr.sn ∧ s.so < 2 ^ 15 ∧ (s.so : ℤ) ≤ s.lastByte := by
  unfold acceptSegment at h
  split at h
  · cases h
  split at h
  · cases h
  simp only [Option.bind_eq_bind, Option.bind_eq_some_iff] at h
  obtain ⟨s', hread, h⟩ := h
  split at h
  · cases h
  obtain rfl := Option.some.inj h
  exact readSegment_spec hread

theorem readHeader_sn {rf : Bool} {decoder decoder' : NrRlc.Decoder} {hdr : DataHeader}
    (h : readHeader rf decoder = some (hdr, decoder')) : hdr.sn < 1024 := by
  unfold readHeader at h
  simp only [Option.bind_eq_bind, Option.bind_eq_some_iff] at h
  obtain ⟨⟨fi, d₁⟩, hfi, ⟨e, d₂⟩, he, ⟨sn, d₃⟩, hsn, h⟩ := h
  obtain ⟨rfl, -⟩ := Prod.mk.inj (Option.some.inj h)
  exact NrRlc.Decoder.getBits_lt hsn

/-- A data PDU keeps the invariant. -/
theorem recvDataPdu_inv (h : rx.Inv) (buffer : List UInt8) (decoder : NrRlc.Decoder) :
    (recvDataPdu cfg rx buffer decoder).1.Inv := by
  unfold recvDataPdu
  split
  · exact h
  split
  · exact h
  rename_i p d₂ hp
  split
  · exact h.of_same (triggerStatus_same _ rx)
  rename_i hdr d₃ hhdr
  split
  · exact h.of_same (triggerStatus_same _ rx)
  rename_i s hs
  obtain ⟨hsn, hseg⟩ := acceptSegment_spec hs
  have hlt := readHeader_sn hhdr
  have hlist : ListInv (storeSegment rx s).rxList (storeSegment rx s).vrR :=
    h.listInv.add (by omega) (by omega) hseg
  have hmoved := moveFrom_inv hlist ⟨h.vrMs_nonneg, h.vrMs_lt⟩ ⟨h.vrH_nonneg, h.vrH_lt⟩
    ⟨h.vrX_nonneg, h.vrX_lt⟩ s.sn
  have hfreed : (freeMoved (moveToReassembly (storeSegment rx s) s.sn).1
      (moveToReassembly (storeSegment rx s) s.sn).2).Inv :=
    hmoved.of_same ⟨rfl, rfl, rfl, rfl, rfl⟩
  exact (reorderingTimer_inv hfreed).of_same (triggerStatus_same _ _)

theorem AmRx.Inv.init : AmRx.Inv {} :=
  AmRx.Inv.of_list ⟨le_rfl, by decide, fun _ hs => absurd hs List.not_mem_nil,
    fun _ hs => absurd hs List.not_mem_nil, List.Pairwise.nil,
    fun _ hs => absurd hs List.not_mem_nil⟩ (by decide) (by decide) (by decide) _ _ _ _ _

/-- **A call keeps the invariant.** -/
theorem AmRx.Inv.step (h : rx.Inv) (c : RxCall) : (rx.step cfg c).Inv := by
  cases c with
  | recvPdu buffer =>
      show (recvPdu cfg rx buffer).1.Inv
      unfold recvPdu
      split
      · exact h
      split
      · exact h
      · exact recvDataPdu_inv h buffer _
  | setTime now =>
      have htime : AmRx.Inv { rx with tCurrent := now } := h.of_same ⟨rfl, rfl, rfl, rfl, rfl⟩
      exact checkTReordering_inv htime
  | status => exact h.of_same ⟨rfl, rfl, rfl, rfl, rfl⟩
  | reestablishment => exact AmRx.Inv.init

theorem AmRx.Inv.run : ∀ (calls : List RxCall) {rx : AmRx}, rx.Inv →
    (calls.foldl (AmRx.step cfg) rx).Inv
  | [], _, h => h
  | c :: calls, _, h => AmRx.Inv.run calls (h.step c)

end Run

/-- **In every state of a run** the STATUS PDU for a grant is complete exactly if no NACK is cut off
that it needs. -/
theorem status_complete_iff (cfg : AmConfig) (calls : List RxCall) (buffer : List UInt8)
    (h2 : 2 ≤ buffer.length) :
    StatusRight (calls.foldl (AmRx.step cfg) {}) buffer ↔
      NoneShort (calls.foldl (AmRx.step cfg) {}) buffer.length :=
  statusRight_iff_missing (AmRx.Inv.init.run calls) h2

/-- A PDU of SN 2, the first bytes of SN 0, and some of SN 1, before the timer expires. -/
def cutOffCalls : List RxCall :=
  [.setTime 1, .recvPdu [0x80, 2, 7], .recvPdu ([0xc0, 0, 0, 0] ++ List.replicate 10 7),
    .recvPdu ([0xc0, 1, 0, 100] ++ List.replicate 10 7), .setTime 50]

/-- The NACK of SN 0 ends before the offset of the segment of SN 1. -/
theorem not_status_complete :
    ¬ ∀ (cfg : AmConfig) (calls : List RxCall) (buffer : List UInt8), 2 ≤ buffer.length →
      StatusRight (calls.foldl (AmRx.step cfg) {}) buffer := by
  intro h
  have hright := h ⟨1000, 35⟩ cutOffCalls (List.replicate 100 0) (by decide)
  rw [statusRight_iff_missing (AmRx.Inv.init.run _) (by decide)] at hright
  exact absurd hright (by decide +kernel)

/-- SN 4 is complete, SN 0 was received in two pieces with a hole between them, and SN 1 from its byte
5 on. SN 2 and SN 3 are lost. -/
def holeCalls : List RxCall :=
  [.setTime 1, .recvPdu [0x80, 4, 7], .recvPdu ([0xc0, 0, 0, 0] ++ List.replicate 10 7),
    .recvPdu ([0xc0, 0, 0, 30] ++ List.replicate 10 7),
    .recvPdu ([0xc0, 1, 0, 5] ++ List.replicate 10 7), .setTime 50]

theorem status_complete_hole :
    StatusRight (holeCalls.foldl (AmRx.step ⟨1000, 35⟩) {}) (List.replicate 100 0) :=
  (status_complete_iff ⟨1000, 35⟩ holeCalls (List.replicate 100 0) (by decide)).mpr
    (by decide +kernel)

end OaiCu.LteRlc
