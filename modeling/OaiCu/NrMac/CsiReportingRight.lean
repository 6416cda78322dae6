import Mathlib.Data.Int.ModEq
import Mathlib.Data.List.Nodup
import OaiCu.Lib.Lists
import OaiCu.NrMac.CsiReporting

/-!
# Where CSI reports are scheduled for the slots that they are due in

The scheduler looks for one slot in each of some frames; the decoder counts slots. They agree if the
period is a whole number of frames.
-/

namespace OaiCu.NrMac

/-! ## The slots -/

section

variable {n period offset frame s : ℕ}

theorem csiDue_iff {slotConfig : CsiReportPeriodicityAndOffset}
    (h : csiPeriodOffset slotConfig = (period, offset)) :
    csiDue n frame s slotConfig = true ↔ (period : ℤ) ∣ n * frame + s - offset := by
  unfold csiDue
  rw [h]
  exact beq_iff_eq.trans (Int.dvd_iff_tmod_eq_zero).symm

/-- With a period of `q` frames the slot counts agree in one slot of one in `q` frames. -/
theorem dvd_slots_iff {q : ℕ} (hs : s < n) (hoffset : offset < n * q) :
    ((n * q : ℕ) : ℤ) ∣ n * frame + s - offset ↔ frame % q = offset / n ∧ s = offset % n := by
  have hn : 0 < n := by omega
  have hlt : offset % n < n := Nat.mod_lt _ hn
  have hdiv : n * (offset / n) + offset % n = offset := Nat.div_add_mod offset n
  have ha : offset / n < q := (Nat.div_lt_iff_lt_mul hn).mpr (by rwa [Nat.mul_comm])
  generalize offset / n = a at *
  generalize offset % n = b at *
  subst hdiv
  have hcast : (n * frame + s - (n * a + b : ℕ) : ℤ) = n * (frame - a) + (s - b) := by
    push_cast
    ring
  rw [hcast]
  push_cast
  constructor
  · intro hdvd
    have hsb : (n : ℤ) ∣ s - b :=
      (Int.dvd_add_right (Dvd.intro _ rfl)).mp ((Dvd.intro _ rfl).trans hdvd)
    have hzero : (s : ℤ) - b = 0 := Int.eq_zero_of_abs_lt_dvd hsb (by rw [abs_lt]; omega)
    rw [hzero, add_zero, mul_dvd_mul_iff_left (by omega)] at hdvd
    refine ⟨?_, by omega⟩
    have hmod : frame ≡ a [MOD q] := (Nat.modEq_iff_dvd.mpr hdvd).symm
    exact Eq.trans hmod (Nat.mod_eq_of_lt ha)
  · rintro ⟨hframe, rfl⟩
    rw [sub_self, add_zero]
    refine mul_dvd_mul_left _ ?_
    have hmod : a ≡ frame [MOD q] := by
      rw [Nat.ModEq, hframe]
      exact Nat.mod_eq_of_lt ha
    exact Nat.modEq_iff_dvd.mp hmod

theorem csiPeriodOffset_bounds (slotConfig : CsiReportPeriodicityAndOffset) :
    (csiPeriodOffset slotConfig).2 < (csiPeriodOffset slotConfig).1 ∧
      (csiPeriodOffset slotConfig).1 ≤ 320 := by
  cases slotConfig <;> exact ⟨Fin.isLt _, Nat.le_of_ble_eq_true rfl⟩

theorem nrSlotsPerFrame_bounds (mu : Fin 5) : 10 ≤ nrSlotsPerFrame mu := by
  revert mu
  decide

end

/-! ## No division by zero -/

section

variable {n frame : ℕ}

theorem reserveResource_ne_divisionByZero (cfg : PucchConfig) (bwpStart slot : ℕ) (st : CsiState)
    (pucchres : PucchResource) :
    st.reserveResource cfg bwpStart slot pucchres ≠ .error .divisionByZero := by
  unfold CsiState.reserveResource
  split
  · nofun
  · nofun

theorem csiReport_ne_divisionByZero (hn : 0 < n) {csirep : CsiReportConfig}
    (h : n ≤ (csiPeriodOffset csirep.reportSlotConfig).1) (bwpStart : ℕ) (cfg : PucchConfig)
    (st : CsiState) : csiReport n frame bwpStart cfg st csirep ≠ .error .divisionByZero := by
  rw [csiReport]
  dsimp only
  rw [if_neg (Nat.div_pos h hn).ne']
  split
  · nofun
  · split
    · nofun
    · split
      · nofun
      · exact Lists.foldlM_ne_error
          (fun pucchres _ st => reserveResource_ne_divisionByZero cfg bwpStart _ st pucchres) _

theorem CsiUe.measReporting_ne_divisionByZero (hn : 0 < n) {ue : CsiUe}
    (h : ue.skipped = false → ∀ csirep ∈ ue.reports,
      n ≤ (csiPeriodOffset csirep.reportSlotConfig).1) (st : CsiState) :
    ue.measReporting n frame st ≠ .error .divisionByZero := by
  unfold CsiUe.measReporting
  split
  · nofun
  · next hskip =>
    split
    · nofun
    · exact Lists.foldlM_ne_error (fun csirep hmem => csiReport_ne_divisionByZero hn
        (h (Bool.eq_false_of_not_eq_true hskip) csirep hmem) ue.bwpStart ue.pucchConfig) st

/-- **A call over any UEs divides by no zero** if the periods of all reports are a frame or more. -/
theorem nrCsiMeasReporting_ne_divisionByZero (hn : 0 < n) {ues : List (CsiUe × SchedPucch)}
    (h : ∀ ue ∈ ues, ue.1.skipped = false → ∀ csirep ∈ ue.1.reports,
      n ≤ (csiPeriodOffset csirep.reportSlotConfig).1) (map : ℕ → BitVec 16) :
    nrCsiMeasReporting n frame ues map ≠ .error .divisionByZero := by
  induction ues generalizing map with
  | nil => nofun
  | cons p ues ih =>
      intro he
      rw [nrCsiMeasReporting] at he
      cases hue : p.1.measReporting n frame ⟨p.2, map⟩ with
      | error e =>
          rw [hue] at he
          cases he
          exact CsiUe.measReporting_ne_divisionByZero hn (h p List.mem_cons_self) _ hue
      | ok st =>
          rw [hue] at he
          have hrest := ih (fun ue hmem => h ue (List.mem_cons_of_mem p hmem)) st.vrbMapUl
          cases hues : nrCsiMeasReporting n frame ues st.vrbMapUl with
          | error e =>
              simp only [hues, bind, Except.bind] at he
              cases he
              exact hrest hues
          | ok r =>
              simp only [hues, bind, Except.bind] at he
              cases he

end

/-! ## A report and its resource -/

/-- A report with the resource that it uses: one of the second set, of a format that carries CSI. -/
structure CsiCase where
  bwpStart : ℕ
  pucchConfig : PucchConfig
  csirep : CsiReportConfig
  pucchres : PucchResource
  len : ℕ
  mask : BitVec 16
  simultaneous : Bool
  listed : csirep.pucchResource ∈ pucchConfig.resourceList
  only : (pucchConfig.resourceToAddModList.filter
    fun pucchres => pucchres.pucchResourceId == csirep.pucchResource) = [pucchres]
  format_eq : pucchConfig.csiFormat pucchres.format = some (len, mask, simultaneous)
  mask_ne : mask ≠ 0#16
  bitlen_pos : 0 < csirep.csiBitlen

/-- No PUCCH is scheduled. -/
def SchedPucch.Free (pucch : SchedPucch) : Prop :=
  pucch.csiBits = 0 ∧ pucch.srFlag = false ∧ pucch.daiC = 0

/-- A PUCCH with CSI is scheduled. -/
def SchedPucch.Reserved (pucch : SchedPucch) (frame slot : ℕ) : Prop :=
  pucch.csiBits ≠ 0 ∧ pucch.frame = frame ∧ pucch.ulSlot = slot

namespace CsiCase

variable (x : CsiCase) (n : ℕ)

def period : ℕ := (csiPeriodOffset x.csirep.reportSlotConfig).1

def offset : ℕ := (csiPeriodOffset x.csirep.reportSlotConfig).2

/-- The slot of the scheduler. -/
def schedSlot : ℕ := (x.period + x.offset) % n

/-- The pass for the report. -/
def report (frame : ℕ) (st : CsiState) : Except CsiFault CsiState :=
  csiReport n frame x.bwpStart x.pucchConfig st x.csirep

/-- A UE with this report only. -/
def ue : CsiUe := ⟨false, x.bwpStart, x.pucchConfig, [x.csirep]⟩

/-- The call for the UE. -/
def call (frame : ℕ) (st : CsiState) : Except CsiFault CsiState :=
  (nrCsiMeasReporting n frame [(x.ue, st.pucch)] st.vrbMapUl).map fun r =>
    ⟨r.1.headD st.pucch, r.2⟩

/-- The places of the blocks of the resource in a slot. -/
def prbs (slot : ℕ) : List ℕ := resourcePrbs x.bwpStart slot x.pucchres.startingPRB x.len

/-- A block of the resource is occupied in the slot. -/
def Occupied (slot : ℕ) (map : ℕ → BitVec 16) : Prop :=
  ∃ prb ∈ x.prbs slot, map prb &&& x.mask ≠ 0#16

/-- With all blocks free, PUCCHs are reserved for the slots that the report is due in; with a block
that is not free, nothing is. -/
structure Right (map : ℕ → BitVec 16) : Prop where
  slots : ∀ frame < 1024, ∀ st : CsiState, st.pucch.Free →
    ¬ x.Occupied (x.schedSlot n) st.vrbMapUl → ∃ st', x.call n frame st = .ok st' ∧
      ∀ slot < n, st'.pucch.Reserved frame slot ↔
        csiDue n frame slot x.csirep.reportSlotConfig = true
  occupied : ∀ frame < 1024, ∀ pucch : SchedPucch, pucch.Free →
    x.Occupied (x.schedSlot n) map → ∃ st', x.call n frame ⟨pucch, map⟩ = .ok st' ∧
      st'.vrbMapUl = map ∧ st'.pucch.csiBits = 0

variable {x n} {frame : ℕ} {st : CsiState} {map : ℕ → BitVec 16}

theorem call_eq : x.call n frame st = x.report n frame st := by
  change Except.map _ (bind (bind (csiReport n frame x.bwpStart x.pucchConfig st x.csirep) pure) _) = _
  unfold report
  cases csiReport n frame x.bwpStart x.pucchConfig st x.csirep <;> rfl

theorem prbs_nodup (slot : ℕ) : (x.prbs slot).Nodup :=
  List.Nodup.map (fun _ _ h => Nat.add_right_cancel (Nat.add_left_cancel h)) List.nodup_range'

theorem pucch_of_not_occupied {pucch : SchedPucch} {slot : ℕ} (h : ¬ x.Occupied slot map) :
    ((x.prbs slot).foldl (CsiState.reservePrb x.mask) ⟨pucch, map⟩).pucch = pucch := by
  rw [foldl_reservePrb_pucch (prbs_nodup slot)]
  exact if_neg h

theorem pucch_of_occupied {pucch : SchedPucch} {slot : ℕ} (h : x.Occupied slot map) :
    ((x.prbs slot).foldl (CsiState.reservePrb x.mask) ⟨pucch, map⟩).pucch = .zero := by
  rw [foldl_reservePrb_pucch (prbs_nodup slot)]
  exact if_pos h

/-- The pass for the report, in a frame where it is due for the scheduler. -/
theorem report_due (hdiv : x.period / n ≠ 0) (hframe : frame % (x.period / n) = x.offset / n)
    (st : CsiState) (hfree : st.pucch.Free) :
    ∃ pucch : SchedPucch, pucch.Reserved frame (x.schedSlot n) ∧
      x.report n frame st =
        .ok ((x.prbs (x.schedSlot n)).foldl (CsiState.reservePrb x.mask) ⟨pucch, st.vrbMapUl⟩) := by
  obtain ⟨resIndex, hres⟩ : ∃ resIndex,
      x.pucchConfig.resourceList.findIdx? (· == x.csirep.pucchResource) = some resIndex := by
    rw [← Option.isSome_iff_exists, List.findIdx?_isSome, List.any_eq_true]
    exact ⟨_, x.listed, beq_self_eq_true _⟩
  obtain ⟨hbits, hsr, hdai⟩ := hfree
  have hbits' := x.bitlen_pos
  refine ⟨{ st.pucch with
      rPucch := -1, frame := frame, ulSlot := x.schedSlot n, resourceIndicator := resIndex
      csiBits := st.pucch.csiBits + x.csirep.csiBitlen, simultaneousHarqcsi := x.simultaneous },
    ⟨by simp only; omega, rfl, rfl⟩, ?_⟩
  change (if x.period / n = 0 then _ else if frame % (x.period / n) ≠ x.offset / n then _ else _) = _
  rw [if_neg hdiv, if_neg (not_not.mpr hframe), hres]
  simp only
  rw [if_neg (by simp [hbits, hsr, hdai]), x.only]
  simp only [List.foldlM_cons, List.foldlM_nil, CsiState.reserveResource, x.format_eq]
  rfl

/-- In the other frames it does nothing. -/
theorem report_not_due (hdiv : x.period / n ≠ 0) (hframe : frame % (x.period / n) ≠ x.offset / n) :
    x.report n frame st = .ok st := by
  change (if x.period / n = 0 then _ else if frame % (x.period / n) ≠ x.offset / n then _ else _) = _
  rw [if_neg hdiv, if_pos hframe]

theorem report_division (hdiv : x.period / n = 0) :
    x.report n frame st = .error .divisionByZero :=
  if_pos hdiv

theorem zero_free : SchedPucch.zero.Free := ⟨rfl, rfl, rfl⟩

theorem not_reserved_of_free {pucch : SchedPucch} (h : pucch.Free) (slot : ℕ) :
    ¬ pucch.Reserved frame slot := fun hres => hres.1 h.1

/-- An empty map. -/
def freeMap : ℕ → BitVec 16 := fun _ => 0#16

theorem not_occupied_freeMap (slot : ℕ) : ¬ x.Occupied slot freeMap := by
  rintro ⟨prb, -, hne⟩
  exact hne (by simp [freeMap])

/-- The slots agree if the period is a whole number of frames. -/
theorem slots_of_dvd (hdvd : n ∣ x.period) (hn : 0 < n) (hfree : st.pucch.Free)
    (hmap : ¬ x.Occupied (x.schedSlot n) st.vrbMapUl) : ∃ st', x.report n frame st = .ok st' ∧
      ∀ slot < n, st'.pucch.Reserved frame slot ↔
        csiDue n frame slot x.csirep.reportSlotConfig = true := by
  have hlt := (csiPeriodOffset_bounds x.csirep.reportSlotConfig).1
  have hperiod : csiPeriodOffset x.csirep.reportSlotConfig = (x.period, x.offset) := rfl
  rw [hperiod] at hlt
  obtain ⟨q, hq⟩ := hdvd
  have hdue : ∀ slot < n, csiDue n frame slot x.csirep.reportSlotConfig = true ↔
      frame % (x.period / n) = x.offset / n ∧ slot = x.schedSlot n := by
    intro slot hslot
    rw [csiDue_iff hperiod, schedSlot, hq, Nat.mul_div_cancel_left _ hn, Nat.mul_add_mod]
    exact dvd_slots_iff hslot (hq ▸ hlt)
  have hdiv : x.period / n ≠ 0 := by
    rw [hq, Nat.mul_div_cancel_left _ hn]
    rintro rfl
    simp only at hlt
    omega
  by_cases hframe : frame % (x.period / n) = x.offset / n
  · obtain ⟨pucch, hres, heq⟩ := report_due hdiv hframe _ hfree
    refine ⟨_, heq, fun slot hslot => ?_⟩
    rw [pucch_of_not_occupied hmap, hdue slot hslot, and_iff_right hframe]
    exact ⟨fun h => h.2.2.symm.trans hres.2.2, fun h => h ▸ hres⟩
  · refine ⟨st, report_not_due hdiv hframe, fun slot hslot => ?_⟩
    rw [hdue slot hslot]
    exact iff_of_false (not_reserved_of_free hfree slot) fun h => hframe h.1

/-- The slots agree only then: the offset itself is the number of a slot that the report is due
in. -/
theorem dvd_of_slots (hn : 0 < n) (h : ∀ frame < 1024, ∃ st',
      x.report n frame ⟨.zero, freeMap⟩ = .ok st' ∧
      ∀ slot < n, st'.pucch.Reserved frame slot ↔
        csiDue n frame slot x.csirep.reportSlotConfig = true) : n ∣ x.period := by
  obtain ⟨hlt, hle⟩ := csiPeriodOffset_bounds x.csirep.reportSlotConfig
  have hperiod : csiPeriodOffset x.csirep.reportSlotConfig = (x.period, x.offset) := rfl
  rw [hperiod] at hlt hle
  have hframe : x.offset / n < 1024 := (Nat.div_le_self _ _).trans_lt (by simp only at hlt hle; omega)
  obtain ⟨st', hst', hslots⟩ := h (x.offset / n) hframe
  have hdue : csiDue n (x.offset / n) (x.offset % n) x.csirep.reportSlotConfig = true := by
    have hcount : (n * (x.offset / n : ℕ) + (x.offset % n : ℕ) - x.offset : ℤ) = 0 := by
      have hsum : (n * (x.offset / n : ℕ) + (x.offset % n : ℕ) : ℤ) = x.offset := by
        exact_mod_cast Nat.div_add_mod x.offset n
      rw [hsum, sub_self]
    rw [csiDue_iff hperiod, hcount]
    exact dvd_zero _
  have hres := (hslots (x.offset % n) (Nat.mod_lt _ hn)).mpr hdue
  by_cases hdiv : x.period / n = 0
  · rw [report_division hdiv] at hst'
    cases hst'
  by_cases hsame : x.offset / n % (x.period / n) = x.offset / n
  · obtain ⟨pucch, hpucch, heq⟩ := report_due hdiv hsame ⟨.zero, freeMap⟩ zero_free
    obtain rfl := Except.ok.inj (heq.symm.trans hst')
    rw [pucch_of_not_occupied (not_occupied_freeMap _)] at hres
    have hslot : (x.period + x.offset) % n = x.offset % n := hpucch.2.2.symm.trans hres.2.2
    have hmod : 0 + x.offset ≡ x.period + x.offset [MOD n] := by
      rw [Nat.ModEq, Nat.zero_add]
      exact hslot.symm
    exact (Nat.modEq_zero_iff_dvd).mp (Nat.ModEq.add_right_cancel' _ hmod).symm
  · obtain rfl := Except.ok.inj ((report_not_due hdiv hsame).symm.trans hst')
    exact absurd hres (not_reserved_of_free zero_free _)

/-- CSI reports are scheduled as they should be if and only if the period is a whole number of
frames and no block of the resource is free where another one is occupied. -/
theorem right_iff (x : CsiCase) (mu : Fin 5) (map : ℕ → BitVec 16) :
    x.Right (nrSlotsPerFrame mu) map ↔ nrSlotsPerFrame mu ∣ x.period ∧
      (x.Occupied (x.schedSlot (nrSlotsPerFrame mu)) map →
        ∀ prb ∈ x.prbs (x.schedSlot (nrSlotsPerFrame mu)), map prb &&& x.mask ≠ 0#16) := by
  have hn : 0 < nrSlotsPerFrame mu := Nat.lt_of_lt_of_le (by decide) (nrSlotsPerFrame_bounds mu)
  generalize nrSlotsPerFrame mu = n at *
  constructor
  · intro h
    have hdvd : n ∣ x.period := dvd_of_slots hn fun frame hframe => by
      simpa only [call_eq] using
        h.slots frame hframe ⟨.zero, freeMap⟩ zero_free (not_occupied_freeMap _)
    refine ⟨hdvd, fun hocc => ?_⟩
    -- the report is due in the frame of its offset
    obtain ⟨hlt, hle⟩ := csiPeriodOffset_bounds x.csirep.reportSlotConfig
    change x.offset < x.period at hlt
    change x.period ≤ 320 at hle
    have hframe : x.offset / n < 1024 := (Nat.div_le_self _ _).trans_lt (by omega)
    have hquot : x.offset / n < x.period / n := by
      rw [Nat.div_lt_iff_lt_mul hn, Nat.div_mul_cancel hdvd]
      exact hlt
    obtain ⟨st', hst', hmap, -⟩ := h.occupied (x.offset / n) hframe .zero zero_free hocc
    obtain ⟨pucch, -, heq⟩ := report_due (x := x) (n := n)
      (Nat.zero_lt_of_lt hquot).ne' (Nat.mod_eq_of_lt hquot) ⟨.zero, map⟩ zero_free
    obtain rfl := Except.ok.inj (heq.symm.trans (call_eq.symm.trans hst'))
    exact (foldl_reservePrb_unchanged (prbs_nodup _) x.mask_ne).mp hmap
  · rintro ⟨hdvd, hall⟩
    refine ⟨fun frame _ st hfree hmap => by
      simpa only [call_eq] using slots_of_dvd hdvd hn hfree hmap, fun frame _ pucch hfree hocc => ?_⟩
    rw [call_eq]
    have hdiv : x.period / n ≠ 0 := by
      have hpos := (csiPeriodOffset_bounds x.csirep.reportSlotConfig).1
      change x.offset < x.period at hpos
      exact (Nat.div_pos (Nat.le_of_dvd (by omega) hdvd) hn).ne'
    by_cases hframe : frame % (x.period / n) = x.offset / n
    · obtain ⟨pucch', -, heq⟩ := report_due hdiv hframe ⟨pucch, map⟩ hfree
      refine ⟨_, heq, (foldl_reservePrb_unchanged (prbs_nodup _) x.mask_ne).mpr (hall hocc), ?_⟩
      rw [pucch_of_occupied hocc]
      rfl
    · exact ⟨_, report_not_due hdiv hframe, rfl, hfree.1⟩

/-- A report of one block every ten slots. -/
def everyTenSlots : CsiCase where
  bwpStart := 0
  pucchConfig :=
    { resourceList := [1]
      resourceToAddModList := [⟨1, 0, .format2 1 12 2⟩]
      simultaneousHarqAckCsi2 := true
      simultaneousHarqAckCsi3 := false
      simultaneousHarqAckCsi4 := false }
  csirep := ⟨.slots10 0, 1, 11⟩
  pucchres := ⟨1, 0, .format2 1 12 2⟩
  len := 1
  mask := slToBitmap 12 2
  simultaneous := true
  listed := by decide
  only := by decide
  format_eq := rfl
  mask_ne := slToBitmap_ne_zero (by decide) (by decide)
  bitlen_pos := by decide

/-- Half a frame of 20 slots is rounded to no frame, by which the frame is divided. -/
theorem everyTenSlots_wrong : ¬ everyTenSlots.Right (nrSlotsPerFrame 1) freeMap := by
  intro h
  obtain ⟨st', hst', -⟩ := h.slots 0 (by decide) ⟨.zero, freeMap⟩ zero_free
    (not_occupied_freeMap _)
  rw [call_eq, report_division rfl] at hst'
  cases hst'

end CsiCase

end OaiCu.NrMac
