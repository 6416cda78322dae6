import OaiCu.NrRlc.AmRun

/-!
# RLC AM: the duplicate filter

`segment_already_received` goes through `rx_list` once and takes what it finds off the two ends of
the segment. It never comes back to a PDU that it found in the middle. It does not have to: the
list is sorted by SO, so the bytes before that PDU are in no PDU behind it.
-/

namespace OaiCu.NrRlc

open Serial

/-- A PDU of `sn` in the list has the byte at offset `o`. -/
def Holds (l : List Pdu) (sn o : ℤ) : Prop :=
  ∃ p ∈ l, p.sn = sn ∧ (p.so : ℤ) ≤ o ∧ o < p.so + p.size

variable {l : List Pdu} {p : Pdu} {sn o : ℤ}

theorem holds_cons :
    Holds (p :: l) sn o ↔ (p.sn = sn ∧ (p.so : ℤ) ≤ o ∧ o < p.so + p.size) ∨ Holds l sn o := by
  unfold Holds
  simp

/-- Every byte from `so` on, `size` of them, is in the list. -/
def HoldsAll (l : List Pdu) (sn so size : ℤ) : Prop :=
  ∀ o, so ≤ o → o < so + size → Holds l sn o

/-- A PDU that has the first bytes takes them off. -/
theorem holdsAll_front {so size : ℤ} (hsn : p.sn = sn) (h1 : (p.so : ℤ) ≤ so)
    (h2 : so < p.so + p.size) :
    HoldsAll (p :: l) sn so size ↔
      HoldsAll l sn (so + (p.size - (so - p.so))) (size - (p.size - (so - p.so))) := by
  constructor
  · intro h o ho1 ho2
    rcases holds_cons.mp (h o (by omega) (by omega)) with ⟨-, -, hlt⟩ | hl
    · omega
    · exact hl
  · intro h o ho1 ho2
    by_cases hlt : o < p.so + p.size
    · exact holds_cons.mpr (.inl ⟨hsn, h1.trans ho1, hlt⟩)
    · exact holds_cons.mpr (.inr (h o (by omega) (by omega)))

/-- A PDU that has the last bytes takes them off. -/
theorem holdsAll_back {so size : ℤ} (hsn : p.sn = sn) (h1 : (p.so : ℤ) ≤ so + size - 1)
    (h2 : so + size - 1 < p.so + p.size) :
    HoldsAll (p :: l) sn so size ↔ HoldsAll l sn so (size - (size - (p.so - so))) := by
  constructor
  · intro h o ho1 ho2
    rcases holds_cons.mp (h o ho1 (by omega)) with ⟨-, hle, -⟩ | hl
    · omega
    · exact hl
  · intro h o ho1 ho2
    by_cases hlt : o < p.so
    · exact holds_cons.mpr (.inr (h o ho1 (by omega)))
    · exact holds_cons.mpr (.inl ⟨hsn, by omega, by omega⟩)

/-- A PDU with neither the first byte nor the last one can be left out. If it lies in the middle,
no PDU behind it has the first byte either. -/
theorem holdsAll_middle {so size : ℤ} (hsize : 0 < size)
    (hbehind : ∀ q ∈ l, q.sn = sn → p.sn = sn → p.so ≤ q.so)
    (h1 : ¬ (p.sn = sn ∧ (p.so : ℤ) ≤ so ∧ so < p.so + p.size))
    (h2 : ¬ (p.sn = sn ∧ (p.so : ℤ) ≤ so + size - 1 ∧ so + size - 1 < p.so + p.size)) :
    HoldsAll (p :: l) sn so size ↔ HoldsAll l sn so size := by
  constructor
  · intro h o ho1 ho2
    rcases holds_cons.mp (h o ho1 ho2) with ⟨hsn, hle, hlt⟩ | hl
    · -- the first byte is in the list, so in a PDU behind
      rcases holds_cons.mp (h so le_rfl (lt_add_of_pos_right so hsize)) with hp | ⟨q, hq, hqsn, hqle, -⟩
      · exact absurd hp h1
      · have := hbehind q hq hqsn hsn
        omega
    · exact hl
  · intro h o ho1 ho2
    exact holds_cons.mpr (.inr (h o ho1 ho2))

/-- **The duplicate filter.** In a list in which the PDUs of one SN are in the order of their SOs,
a segment is reported as received exactly if every byte of it is in some PDU of its SN. -/
theorem segmentAlreadyReceived_eq (hl : l.Pairwise fun p q => p.sn = q.sn → p.so ≤ q.so)
    (so size : ℤ) : segmentAlreadyReceived l sn so size = true ↔ HoldsAll l sn so size := by
  induction l generalizing so size with
  | nil =>
      rw [segmentAlreadyReceived, decide_eq_true_eq]
      constructor
      · intro hsize o ho1 ho2
        omega
      · intro h
        by_contra hsize
        obtain ⟨p, hp, -⟩ := h so le_rfl (by omega)
        cases hp
  | cons p l ih =>
      obtain ⟨hp, hl⟩ := List.pairwise_cons.mp hl
      have hbehind : ∀ q ∈ l, q.sn = sn → p.sn = sn → p.so ≤ q.so :=
        fun q hq hqsn hsn => hp q hq (hsn.trans hqsn.symm)
      rw [segmentAlreadyReceived]
      by_cases hsize : size > 0
      · rw [if_pos hsize]
        by_cases hsn : p.sn = sn
        · rw [if_pos hsn]
          by_cases hfront : (p.so : ℤ) ≤ so ∧ so < p.so + p.size
          · rw [if_pos hfront, ih hl, holdsAll_front hsn hfront.1 hfront.2]
          · rw [if_neg hfront]
            by_cases hback : (p.so : ℤ) ≤ so + size - 1 ∧ so + size - 1 < p.so + p.size
            · rw [if_pos hback, ih hl, holdsAll_back hsn hback.1 hback.2]
            · rw [if_neg hback, ih hl, holdsAll_middle hsize hbehind (fun h => hfront h.2)
                fun h => hback h.2]
        · rw [if_neg hsn, ih hl, holdsAll_middle hsize hbehind (fun h => hsn h.1)
            fun h => hsn h.1]
      · rw [if_neg hsize]
        refine iff_of_true rfl fun o ho1 ho2 => ?_
        omega

/-- In `rx_list` the PDUs of one SN are in the order of their SOs. -/
theorem so_le_of_posLe {M b : ℤ} (hl : l.Pairwise (posLe M b)) :
    l.Pairwise fun p q => p.sn = q.sn → p.so ≤ q.so := by
  refine hl.imp fun {p q} h hsn => ?_
  rcases h with h | ⟨-, h⟩
  · rw [hsn] at h
    exact absurd h (lt_irrefl _)
  · exact h

/-- For every `rx_list` sorted by SN, whatever the modulus base, and SO. -/
theorem segment_already_received_iff (cfg : AmConfig) (rx : AmRx)
    (hl : rx.rxList.Pairwise (posLe cfg.snModulus rx.rxNext)) (sn so size : ℤ) :
    segmentAlreadyReceived rx.rxList sn so size = true ↔
      ∀ o, so ≤ o → o < so + size → ∃ p ∈ rx.rxList, p.sn = sn ∧ (p.so : ℤ) ≤ o ∧
        o < p.so + p.size :=
  segmentAlreadyReceived_eq (so_le_of_posLe hl) so size

/-- The last byte is in a PDU that the filter meets after a nested one. -/
theorem segment_already_received_nested :
    segmentAlreadyReceived [newPdu 5 0 true false [1, 2, 3, 4], newPdu 5 1 false false [2],
        newPdu 5 3 false true [4, 5, 6]] 5 1 5 = true ↔
      ∀ o : ℤ, 1 ≤ o → o < 1 + 5 → ∃ p ∈ [newPdu 5 0 true false [1, 2, 3, 4],
        newPdu 5 1 false false [2], newPdu 5 3 false true [4, 5, 6]], p.sn = 5 ∧ (p.so : ℤ) ≤ o ∧
        o < p.so + p.size :=
  segment_already_received_iff testConfig
    { rxList := [newPdu 5 0 true false [1, 2, 3, 4], newPdu 5 1 false false [2],
        newPdu 5 3 false true [4, 5, 6]] } (by simp [posLe, newPdu]) 5 1 5

end OaiCu.NrRlc
