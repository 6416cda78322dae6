import OaiCu.NrMac.Acknack
import OaiCu.NrMac.CsiReportingRight

/-!
# When the scheduling of acknowledgements ends

The search visits all uplink slots of the frame. It is left at the latest in one that is not within
the feedback limits; without such a slot it goes round for ever if all resources are taken.
-/

namespace OaiCu.NrMac

/-! ## The walk over the uplink slots -/

section

variable {n period first s u : ℕ}

/-- The slots from `s` to `u`. -/
def distance (n s u : ℕ) : ℕ := (u + n - s % n) % n

/-- The next slot, with the first slots of a period passed over. -/
def nextSlot (n period first s : ℕ) : ℕ :=
  if (s + 1) % period = 0 then (s + 1 + first) % n else (s + 1) % n

theorem distance_eq_zero_iff (hu : u < n) : distance n s u = 0 ↔ s % n = u := by
  have hs : s % n < n := Nat.mod_lt _ (by omega)
  unfold distance
  rcases Nat.lt_or_ge u (s % n) with hlt | hge
  · rw [Nat.mod_eq_of_lt (by omega)]
    omega
  · rw [show u + n - s % n = u - s % n + n by omega, Nat.add_mod_right, Nat.mod_eq_of_lt (by omega)]
    omega

/-- `k` slots on the distance is smaller by `k`. -/
theorem distance_add {k : ℕ} (hu : u < n) (hk : k ≤ distance n s u) :
    distance n ((s + k) % n) u = distance n s u - k := by
  have hs : s % n < n := Nat.mod_lt _ (by omega)
  have hmod : (s + k) % n = (s % n + k) % n := (Nat.mod_add_mod s n k).symm
  have hcase : distance n s u = if s % n ≤ u then u - s % n else u + n - s % n := by
    unfold distance
    split_ifs with hle
    · rw [show u + n - s % n = u - s % n + n by omega, Nat.add_mod_right,
        Nat.mod_eq_of_lt (by omega)]
    · exact Nat.mod_eq_of_lt (by omega)
  rw [hcase] at hk ⊢
  unfold distance
  rw [Nat.mod_mod, hmod]
  generalize s % n = r at *
  split_ifs at hk ⊢ with hle
  · rw [Nat.mod_eq_of_lt (a := r + k) (by omega), show u + n - (r + k) = u - r - k + n by omega,
      Nat.add_mod_right, Nat.mod_eq_of_lt (by omega)]
  · rcases Nat.lt_or_ge (r + k) n with hlt | hge
    · rw [Nat.mod_eq_of_lt (a := r + k) hlt, Nat.mod_eq_of_lt (by omega)]
      omega
    · rw [show r + k = r + k - n + n by omega, Nat.add_mod_right,
        Nat.mod_eq_of_lt (a := r + k - n) (by omega),
        show u + n - (r + k - n) = u + n - r - k + n by omega, Nat.add_mod_right,
        Nat.mod_eq_of_lt (by omega)]

/-- A step comes nearer to an uplink slot, and does not pass it. -/
theorem distance_nextSlot (hperiod : period ∣ n) (hu : u < n) (hup : first ≤ u % period)
    (hne : s % n ≠ u) :
    distance n (nextSlot n period first s) u < distance n s u := by
  have hpos : 0 < distance n s u := Nat.pos_of_ne_zero ((distance_eq_zero_iff hu).not.mpr hne)
  unfold nextSlot
  split_ifs with hend
  · have hle : 1 + first ≤ distance n s u := by
      by_contra hlt
      -- the slot would be one of the first slots of the next period
      have hmod : (s + distance n s u) % n = u := by
        have hzero := distance_add (s := s) hu le_rfl
        rw [Nat.sub_self, distance_eq_zero_iff hu, Nat.mod_mod] at hzero
        exact hzero
      generalize distance n s u = d at *
      have hrest : u % period = (d - 1) % period := by
        rw [← hmod, Nat.mod_mod_of_dvd _ hperiod, show s + d = s + 1 + (d - 1) by omega, Nat.add_mod,
          hend, Nat.zero_add, Nat.mod_mod]
      have hle := Nat.mod_le (d - 1) period
      omega
    rw [Nat.add_assoc, distance_add hu hle]
    omega
  · rw [distance_add hu hpos]
    omega

/-- The next slot is an uplink slot. -/
theorem nextSlot_uplink (hperiod : period ∣ n) (hfirst : first < period) (hn : 0 < n)
    (hs : first ≤ s % period) :
    nextSlot n period first s < n ∧ first ≤ nextSlot n period first s % period := by
  unfold nextSlot
  split_ifs with hend
  · refine ⟨Nat.mod_lt _ hn, ?_⟩
    rw [Nat.mod_mod_of_dvd _ hperiod, Nat.add_mod, hend, Nat.zero_add, Nat.mod_mod,
      Nat.mod_eq_of_lt hfirst]
  · refine ⟨Nat.mod_lt _ hn, ?_⟩
    have hsucc : (s + 1) % period = s % period + 1 := by
      have hlt : s % period < period := Nat.mod_lt _ (by omega)
      rw [← Nat.mod_add_mod] at hend ⊢
      rcases Nat.eq_or_lt_of_le hlt with heq | hlt
      · rw [show s % period + 1 = period by omega, Nat.mod_self] at hend
        exact absurd rfl hend
      · exact Nat.mod_eq_of_lt hlt
    rw [Nat.mod_mod_of_dvd _ hperiod, hsucc]
    omega

end

namespace AckCall

variable {x : AckCall} {csiPucch pucch : SchedPucch} {map : ℕ → BitVec 16}

theorem n_pos : 0 < x.n := Nat.lt_of_lt_of_le (by decide) (nrSlotsPerFrame_bounds x.mu)

theorem period_dvd : x.nrSlotsPeriod ∣ x.n := by
  unfold nrSlotsPeriod
  split
  · exact Nat.dvd_refl _
  · rename_i p _
    exact Nat.div_dvd_of_dvd p.dvd

theorem first_lt : x.firstUlSlotPeriod < x.nrSlotsPeriod := by
  unfold firstUlSlotPeriod nrSlotsPeriod
  split
  · exact n_pos
  · rename_i p _
    exact p.lt

theorem advance_ulSlot :
    (x.advance pucch).ulSlot = nextSlot x.n x.nrSlotsPeriod x.firstUlSlotPeriod pucch.ulSlot := rfl

/-- An uplink slot that is not within the feedback limits. -/
def Beyond (x : AckCall) (u : ℕ) : Prop :=
  u < x.n ∧ x.firstUlSlotPeriod ≤ u % x.nrSlotsPeriod ∧ ¬ x.Within u

/-! ## The search -/

theorem test_ulSlot : (x.testAcknackVrbOccupation csiPucch map pucch).2.ulSlot = pucch.ulSlot := by
  unfold testAcknackVrbOccupation
  split_ifs <;> rfl

/-- A slot counts modulo the frame. -/
theorem within_mod (s : ℕ) : x.Within (s % x.n) ↔ x.Within s := by
  have hslot : (x.slot : ℕ) < x.n := x.slot.isLt
  unfold Within
  rw [Nat.sub_add_comm hslot.le, Nat.sub_add_comm hslot.le, Nat.add_mod_mod]

/-- A pass of the search comes nearer to the slot at which it ends. -/
theorem searchBody_decreases {u : ℕ} (hu : x.Beyond u) (s s' : SchedPucch × Option (Fin 8))
    (h : x.searchBody csiPucch map s = some s') :
    (if s'.2.isSome then 0 else distance x.n s'.1.ulSlot u + 1) <
      if s.2.isSome then 0 else distance x.n s.1.ulSlot u + 1 := by
  obtain ⟨pucch, found⟩ := s
  cases found with
  | some i => cases h
  | none =>
      rw [searchBody] at h
      split_ifs at h with hwithin
      simp only at h
      split at h
      · obtain rfl := Option.some.inj h
        exact Nat.succ_pos _
      · obtain rfl := Option.some.inj h
        have hne : pucch.ulSlot % x.n ≠ u := by
          rintro rfl
          exact hu.2.2 ((within_mod _).mpr hwithin)
        have hless := distance_nextSlot period_dvd hu.1 hu.2.1 hne
        simp only [Option.isSome_none, Bool.false_eq_true, if_false, advance_ulSlot, test_ulSlot]
        exact Nat.succ_lt_succ hless

theorem search_ends {u : ℕ} (hu : x.Beyond u) (pucch : SchedPucch) :
    ∃ t, While.Ends (x.searchBody csiPucch map) (pucch, none) t :=
  ⟨_, While.ends_iterate
    (fun s => if s.2.isSome then 0 else distance x.n s.1.ulSlot u + 1) (searchBody_decreases hu) _ _
    le_rfl⟩

/-! ## The activations -/

/-- What may call the function again: acknowledgements that wait, and a CSI report. -/
def calls (st : AckState) : ℕ := min st.pucch.daiC 1 + min st.csiPucch.csiBits 1

theorem finish_again {st st' : AckState} {pucch : SchedPucch} {found : Option (Fin 8)}
    (h : x.finish st pucch found = .again st') :
    0 < st.csiPucch.csiBits ∧ st'.pucch.daiC = 0 ∧ st'.csiPucch.csiBits = 0 := by
  unfold finish at h
  split at h
  · cases h
  · split_ifs at h with hcsi
    · obtain rfl := Outcome.again.inj h
      unfold csiInSlot at hcsi
      simp only [Bool.and_eq_true, decide_eq_true_eq] at hcsi
      exact ⟨hcsi.1.1, rfl, rfl⟩

theorem reuse_again {st st' : AckState} (h : x.reuse st = .again st') :
    st'.pucch.daiC = 0 ∧ st'.csiPucch = st.csiPucch := by
  unfold reuse at h
  split at h
  · obtain rfl := Outcome.again.inj h
    exact ⟨rfl, rfl⟩
  · simp only at h
    split_ifs at h

theorem prepare_calls (st : AckState) :
    (x.prepare st).pucch.daiC ≤ st.pucch.daiC ∧
      (x.prepare st).csiPucch.csiBits ≤ st.csiPucch.csiBits := by
  unfold prepare
  simp only
  split_ifs
  · exact ⟨Nat.zero_le _, Nat.zero_le _⟩
  · exact ⟨Nat.zero_le _, le_rfl⟩
  · exact ⟨le_rfl, le_rfl⟩

theorem activation_again {st st' : AckState} (h : x.Activation st (.again st')) :
    calls st' < calls st := by
  obtain ⟨hdai', hcsi'⟩ := prepare_calls (x := x) st
  generalize ho : Outcome.again st' = o at h
  unfold calls
  cases h with
  | csiBits => cases ho
  | stale => cases ho
  | reuse h hdai =>
      obtain ⟨h0, hcsi⟩ := reuse_again ho.symm
      rw [h0, hcsi]
      omega
  | search h hdai hstart hends =>
      obtain ⟨hpos, h0, hcsi⟩ := finish_again ho.symm
      rw [h0, hcsi]
      omega

theorem activation_total {u : ℕ} (hu : x.Beyond u) (st : AckState) : ∃ o, x.Activation st o := by
  by_cases hbits : st.pucch.csiBits = 0
  · rcases Nat.eq_zero_or_pos (x.prepare st).pucch.daiC with hdai | hdai
    · cases hstart : x.searchStart (x.prepare st).pucch with
      | none => exact ⟨_, .stale hbits hdai hstart⟩
      | some pucch =>
          obtain ⟨t, ht⟩ := search_ends hu pucch
          exact ⟨_, .search hbits hdai hstart ht⟩
    · exact ⟨_, .reuse hbits hdai⟩
  · exact ⟨_, .csiBits hbits⟩

/-- If each activation ends, a call does. -/
theorem call_ends {u : ℕ} (hu : x.Beyond u) :
    ∀ (k : ℕ) (st : AckState), calls st ≤ k → ∃ d ≤ k + 1, ∃ o, x.Call d st o
  | k, st, hk => by
      obtain ⟨o, ho⟩ := activation_total hu st
      by_cases hagain : ∃ st', o = .again st'
      · obtain ⟨st', rfl⟩ := hagain
        have hless := activation_again ho
        match k with
        | 0 => omega
        | k + 1 =>
            obtain ⟨d, hd, o, hcall⟩ := call_ends hu k st' (by omega)
            exact ⟨d + 1, by omega, o, .again ho hcall⟩
      · exact ⟨1, by omega, o, .done ho fun st' heq => hagain ⟨st', heq⟩⟩

/-! ## A search that is never left -/

/-- A map in which all is taken. -/
def fullMap : ℕ → BitVec 16 := fun _ => BitVec.allOnes 16

theorem test_fullMap :
    (x.testAcknackVrbOccupation .zero fullMap pucch).1 = false := by
  unfold testAcknackVrbOccupation csiInSlot
  simp only [SchedPucch.zero, Nat.lt_irrefl, gt_iff_lt, decide_false, Bool.false_and]
  rw [if_neg (by decide), List.all_eq_false]
  refine ⟨0, List.mem_range.mpr x.parms.nrOfSymb_pos, ?_⟩
  have hlt : x.parms.startSymb < 16 := by
    have h1 := x.parms.nrOfSymb_pos
    have h2 := x.parms.symb_le
    omega
  simp only [fullMap, BitVec.allOnes_and, Nat.add_zero, beq_iff_eq]
  exact slToBitmap_ne_zero (by decide) hlt

/-- The search is at an uplink slot and has found nothing. -/
def Searching (x : AckCall) (s : SchedPucch × Option (Fin 8)) : Prop :=
  s.1.ulSlot < x.n ∧ x.firstUlSlotPeriod ≤ s.1.ulSlot % x.nrSlotsPeriod ∧ s.2 = none

theorem searching_next (hall : ¬ ∃ u, x.Beyond u) (s : SchedPucch × Option (Fin 8))
    (h : x.Searching s) :
    ∃ s', x.searchBody .zero fullMap s = some s' ∧ x.Searching s' := by
  obtain ⟨pucch, found⟩ := s
  obtain ⟨hlt, hup, hnone⟩ := h
  simp only at hlt hup hnone
  subst hnone
  have hwithin : x.Within pucch.ulSlot := by
    by_contra hnot
    exact hall ⟨_, hlt, hup, hnot⟩
  have hnext := nextSlot_uplink (s := pucch.ulSlot) period_dvd first_lt n_pos hup
  refine ⟨(x.advance (x.testAcknackVrbOccupation .zero fullMap pucch).2, none), ?_, ?_⟩
  · rw [searchBody, if_pos hwithin]
    simp only [test_fullMap, Bool.false_eq_true, if_false]
  · refine ⟨?_, ?_, rfl⟩
    · rw [advance_ulSlot, test_ulSlot]
      exact hnext.1
    · rw [advance_ulSlot, test_ulSlot]
      exact hnext.2

theorem nextUlSlot_uplink :
    x.nextUlSlot % x.n < x.n ∧ x.firstUlSlotPeriod ≤ x.nextUlSlot % x.n % x.nrSlotsPeriod := by
  refine ⟨Nat.mod_lt _ n_pos, ?_⟩
  rw [Nat.mod_mod_of_dvd _ period_dvd]
  have hfirst := x.first_lt
  unfold nextUlSlot firstUlSlotPeriod at *
  split
  · exact Nat.zero_le _
  · rename_i p heq
    simp only [heq] at hfirst
    rw [Nat.add_mul_mod_self_left, Nat.mod_eq_of_lt hfirst]

/-- A UE without a PUCCH, in a cell where all is taken. -/
def crowded : AckState where
  pucch := .zero
  csiPucch := .zero
  vrbMapUl := fullMap

theorem crowded_not_activation (hall : ¬ ∃ u, x.Beyond u) (o : Outcome) :
    ¬ x.Activation crowded o := by
  intro h
  have hprepare : x.prepare crowded = { crowded with pucch := { SchedPucch.zero with
      rPucch := x.rPucch } } := rfl
  cases h with
  | csiBits h => exact h rfl
  | reuse h hdai =>
      rw [hprepare] at hdai
      exact absurd hdai (Nat.lt_irrefl 0)
  | stale h hdai hstart =>
      rw [hprepare, searchStart, if_pos (.inl ⟨rfl, rfl⟩)] at hstart
      cases hstart
  | search h hdai hstart hends =>
      rw [hprepare, searchStart, if_pos (.inl ⟨rfl, rfl⟩)] at hstart
      obtain rfl := Option.some.inj hstart
      exact While.not_ends_of_invariant (searching_next hall)
        ⟨nextUlSlot_uplink.1, nextUlSlot_uplink.2, rfl⟩ hends

/-- The scheduling of acknowledgements ends for all occupations if and only if some uplink slot of the
frame is farther from the slot of the PDSCH than the longest feedback time. -/
theorem terminates_iff (x : AckCall) : x.Terminates ↔ ∃ u, x.Beyond u := by
  constructor
  · intro h
    by_contra hall
    obtain ⟨d, -, o, hcall⟩ := h crowded
    cases hcall with
    | done h _ => exact crowded_not_activation hall _ h
    | again h _ => exact crowded_not_activation hall _ h
  · rintro ⟨u, hu⟩ st
    refine call_ends hu 2 st ?_
    unfold calls
    omega

/-- 15 kHz, FDD, with DCI format 1_1 and feedback times from 2 to 9. -/
def tenSlots : AckCall where
  mu := 0
  tdd := none
  minfbtime := 2
  dlDataToUlAck := some fun i => ⟨i + 2, by omega⟩
  bwpStart := 0
  parms := ⟨0, 0, 1, 13, by decide, by decide⟩
  frame := 0
  slot := ⟨0, by decide⟩
  rPucch := -1

/-- All ten slots of the frame are within nine slots. -/
theorem tenSlots_endless : ¬ tenSlots.Terminates := by
  intro h
  obtain ⟨d, -, o, hcall⟩ := h crowded
  have hall : ¬ ∃ u, tenSlots.Beyond u := by
    rintro ⟨u, hu, -, hnot⟩
    exact hnot (Nat.le_of_lt_succ (Nat.mod_lt _ (by decide)))
  cases hcall with
  | done h _ => exact crowded_not_activation hall _ h
  | again h _ => exact crowded_not_activation hall _ h

end AckCall

end OaiCu.NrMac
