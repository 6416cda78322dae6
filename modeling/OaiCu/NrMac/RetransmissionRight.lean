import OaiCu.NrMac.PdcchPositions
import OaiCu.NrMac.Retransmission

/-!
# Which failed allocations are undone

The index of the next candidate is the one that was used, so taking one off it after a search gives
the old index back only if the search went on by one candidate. The parameters of the UE and the
stored record are written before the search for a CCE, and stay written if it fails.
-/

namespace OaiCu.NrMac

open Scan

variable {x : DlAttempt} {s : DlResources}

namespace DlAttempt

/-- The index from which the candidates are searched. -/
def nextCand (x : DlAttempt) (s : DlResources) : ℤ := s.pdcch.pdcchCand x.cid

/-- Candidate `m` is the one that a search finds. -/
def Finds (x : DlAttempt) (s : DlResources) (m : ℤ) : Prop :=
  x.request.FirstFree s.pdcch.vrbMap (x.nextCand s) m

/-- There are blocks for the retransmission: as many as before that follow one another, or, in another
time domain allocation, a first run of blocks that holds the same transport block. -/
def HasRbs (x : DlAttempt) (s : DlResources) : Prop :=
  if x.tda = s.retInfo.timeDomainAllocation then
    ∃ rbStart, IsRun (free s s.pdschSemiStatic) x.bwpSize s.retInfo.rbSize rbStart
  else (x.newRbs s).ret = true ∧ (x.newRbs s).tbs = s.retInfo.tbSize

/-- A retransmission in the time domain allocation that the record and the parameters have. -/
def SameTda (x : DlAttempt) (s : DlResources) : Prop :=
  s.retInfo.timeDomainAllocation = x.tda ∧ s.pdschSemiStatic.timeDomainAllocation = x.tda

/-- If allocate_dl_retransmission returns false, the resources are as before. -/
def FailureUndone (x : DlAttempt) (s : DlResources) : Prop :=
  (x.allocateDlRetransmission s).1 = none → (x.allocateDlRetransmission s).2 = s

theorem findRbs_eq_none_iff : x.findRbs s = none ↔ ¬ x.HasRbs s := by
  rw [findRbs, HasRbs]
  by_cases htda : x.tda = s.retInfo.timeDomainAllocation
  · rw [if_pos htda, if_pos htda, ← findRun_eq_none_iff]
    cases findRun (free s s.pdschSemiStatic) x.bwpSize s.retInfo.rbSize 0 0 <;> simp
  · rw [if_neg htda, if_neg htda]
    simp only [Bool.or_eq_true, Bool.not_eq_true', decide_eq_true_eq, ne_eq, ite_eq_left_iff]
    cases (x.newRbs s).ret <;> simp

/-- The blocks leave the resources as they are if nothing has to be switched. -/
theorem findRbs_snd {rbStart : ℕ} {s' : DlResources} (h : x.findRbs s = some (rbStart, s')) :
    s'.pdcch = s.pdcch ∧ (x.SameTda s → s' = s) ∧
      (¬ x.SameTda s → (s'.retInfo, s'.pdschSemiStatic) ≠ (s.retInfo, s.pdschSemiStatic)) := by
  rw [findRbs] at h
  by_cases htda : x.tda = s.retInfo.timeDomainAllocation
  · rw [if_pos htda] at h
    cases hrun : findRun (free s s.pdschSemiStatic) x.bwpSize s.retInfo.rbSize 0 0 with
    | none =>
        rw [hrun] at h
        cases h
    | some rb =>
        rw [hrun] at h
        obtain ⟨-, rfl⟩ := Prod.mk.inj (Option.some.inj h)
        by_cases hps : s.pdschSemiStatic.timeDomainAllocation = x.tda
        · rw [if_neg (not_not_intro hps)]
          exact ⟨rfl, fun _ => rfl, fun hne => absurd ⟨htda.symm, hps⟩ hne⟩
        · rw [if_pos hps]
          refine ⟨rfl, fun hsame => absurd hsame.2 hps, fun _ he => hps ?_⟩
          -- the switched parameters are those of the slot
          have hnew := congrArg (fun q => q.2.timeDomainAllocation) he
          exact hnew.symm.trans (x.cfg.setPdschSemiStatic_timeDomainAllocation x.tda _ _)
  · rw [if_neg htda] at h
    dsimp only at h
    split at h
    · cases h
    · obtain ⟨-, rfl⟩ := Prod.mk.inj (Option.some.inj h)
      refine ⟨rfl, fun hsame => absurd hsame.1.symm htda, fun _ he => htda ?_⟩
      exact congrArg (fun q => q.1.timeDomainAllocation) he

/-- After the blocks, what is undone of the CCE gives the old resources if nothing was switched. -/
theorem with_pdcch_eq_iff {rbStart : ℕ} {s' : DlResources}
    (h : x.findRbs s = some (rbStart, s')) (pdcch : PdcchIndex) :
    { s' with pdcch := pdcch } = s ↔ x.SameTda s ∧ pdcch = s.pdcch := by
  obtain ⟨-, hsame, hswitched⟩ := findRbs_snd h
  constructor
  · intro he
    have hret : s'.retInfo = s.retInfo := by rw [← he]
    have hps : s'.pdschSemiStatic = s.pdschSemiStatic := by rw [← he]
    refine ⟨?_, by rw [← he]⟩
    by_contra hne
    exact hswitched hne (Prod.ext hret hps)
  · rintro ⟨htda, rfl⟩
    rw [hsame htda]

/-- A failed retransmission is undone if and only if there are no blocks for it, or nothing had to be
switched for them and the candidate that was found, if any, is the second one that was looked at. -/
theorem failureUndone_iff : x.FailureUndone s ↔
    (x.HasRbs s →
      (∃ m, x.Finds s m ∧ x.acknackScheduling (x.request.firstCceInt m) ≠ none) ∨
      (x.SameTda s ∧ ∀ m, x.Finds s m → m = x.nextCand s + 1)) := by
  rw [FailureUndone, allocateDlRetransmission]
  cases hrbs : x.findRbs s with
  | none => exact iff_of_true (fun _ => rfl) fun h => absurd h (findRbs_eq_none_iff.mp hrbs)
  | some found =>
      obtain ⟨rbStart, s'⟩ := found
      have hhas : x.HasRbs s := by
        by_contra h
        rw [findRbs_eq_none_iff.mpr h] at hrbs
        cases hrbs
      rw [imp_iff_right hhas]
      dsimp only
      rw [(findRbs_snd hrbs).1]
      rcases s.pdcch.findPdcchCandidate_cases x.request with ⟨hfind, hno⟩ | ⟨m, hfind, hm⟩
      · have hfinds : ∀ m, ¬ x.Finds s m := hno
        rw [hfind]
        simp only [forall_const, with_pdcch_eq_iff hrbs, and_true, hfinds, false_and, exists_false,
          false_or, false_implies]
      · have hfinds : ∀ m', x.Finds s m' ↔ m' = m := hm
        rw [hfind]
        simp only [hfinds, exists_eq_left, forall_eq]
        cases x.acknackScheduling (x.request.firstCceInt m) with
        | some alloc => simp
        | none =>
            simp only [forall_const, ne_eq, not_true_eq_false, false_or]
            rw [with_pdcch_eq_iff hrbs]
            exact and_congr_right' (s.pdcch.undo_update_eq_iff x.cid m)

end DlAttempt

/-! ## New downlink data -/

namespace DlNewData

/-- If pf_dl skips the UE because there is no PUCCH occasion, the resources are as before. -/
def SkipUndone (x : DlNewData) (schedPdsch : PdschRecord) (s : DlResources) : Prop :=
  (x.pfDl schedPdsch s).1 = .noPucch → (x.pfDl schedPdsch s).2 = s

theorem skipUndone_iff {x : DlNewData} {schedPdsch : PdschRecord} : x.SkipUndone schedPdsch s ↔
    (x.availableHarq = true → ∀ m, x.Finds s m →
      x.acknackScheduling (x.request.firstCceInt m) = none → m = x.nextCand s + 1) := by
  rw [SkipUndone, pfDl]
  cases x.availableHarq with
  | false => simp
  | true =>
      simp only [Bool.not_true, Bool.false_eq_true, if_false, forall_const]
      rcases s.pdcch.findPdcchCandidate_cases x.request with ⟨hfind, hno⟩ | ⟨m, hfind, hm⟩
      · rw [hfind]
        exact iff_of_true nofun fun m hm => absurd hm (hno m)
      · rw [hfind]
        have hfinds : ∀ m', x.Finds s m' ↔ m' = m := hm
        simp only [hfinds, forall_eq]
        cases hack : x.acknackScheduling (x.request.firstCceInt m) with
        | some alloc =>
            simp only [reduceCtorEq, false_implies, iff_true]
            split <;> nofun
        | none =>
            simp only [forall_const]
            have hundo := s.pdcch.undo_update_eq_iff x.cid m
            constructor
            · intro he
              exact hundo.mp (congrArg DlResources.pdcch he)
            · intro hnext
              exact congrArg (fun pdcch => { s with pdcch := pdcch }) (hundo.mpr hnext)

end DlNewData

/-! ## Uplink -/

namespace UlAttempt

variable {x : UlAttempt} {s : UlResources}

/-- Candidate `m` is the one that a search finds. -/
def Finds (x : UlAttempt) (s : UlResources) (m : ℤ) : Prop :=
  x.request.FirstFree s.pdcch.vrbMap
    (s.pdcch.pdcchCand x.request.coreset.controlResourceSetId) m

/-- allocate_ul_retransmission finds blocks: as many as before behind the first free one, or, in
another time domain allocation, a first run of blocks that holds the same transport block. -/
def HasRbs (x : UlAttempt) (s : UlResources) : Prop :=
  if x.tda s = s.retInfo.timeDomainAllocation then
    nextFree (free s (x.switchedPs s)) x.bwpSize 0 + s.retInfo.rbSize ≤ x.bwpSize
  else (x.newRbs s).ret = true ∧ (x.newRbs s).tbs = s.retInfo.tbSize

/-- A retransmission in the time domain allocation of the record, for which the parameters stay. -/
def SamePs (x : UlAttempt) (s : UlResources) : Prop :=
  x.tda s = s.retInfo.timeDomainAllocation ∧ x.switchedPs s = s.puschSemiStatic

/-- If allocate_ul_retransmission returns false, the resources are as before. -/
def FailureUndone (x : UlAttempt) (s : UlResources) : Prop :=
  (x.allocateUlRetransmission s).1 = none → (x.allocateUlRetransmission s).2 = s

theorem findRbs_fst_eq_none_iff : (x.findRbs s).1 = none ↔ ¬ x.HasRbs s := by
  rw [findRbs, HasRbs]
  obtain ⟨ret, tbs, nbRb⟩ := x.newRbs s
  by_cases htda : x.tda s = s.retInfo.timeDomainAllocation
  · rw [if_pos htda, if_pos htda]
    simp
  · rw [if_neg htda, if_neg htda]
    dsimp only
    rw [apply_ite Prod.fst]
    cases ret <;> simp

/-- The blocks leave the resources as they are if the parameters stay, or if there are none in
another time domain allocation. -/
theorem findRbs_snd_eq_iff (pdcch : PdcchIndex) : { (x.findRbs s).2 with pdcch := pdcch } = s ↔
    (x.SamePs s ∨ (x.tda s ≠ s.retInfo.timeDomainAllocation ∧ ¬ x.HasRbs s)) ∧
      pdcch = s.pdcch := by
  rw [findRbs, HasRbs, SamePs]
  obtain ⟨ret, tbs, nbRb⟩ := x.newRbs s
  by_cases htda : x.tda s = s.retInfo.timeDomainAllocation
  · rw [if_pos htda]
    simp only [htda, true_and, ne_eq, not_true_eq_false, false_and, or_false]
    constructor
    · intro he
      have hps : x.switchedPs s = s.puschSemiStatic := congrArg UlResources.puschSemiStatic he
      exact ⟨hps, congrArg UlResources.pdcch he⟩
    · rintro ⟨hps, rfl⟩
      rw [hps]
  · rw [if_neg htda, if_neg htda]
    simp only [htda, false_and, false_or, ne_eq, not_false_eq_true, true_and]
    split
    · rename_i hnew
      have hno : ¬ (ret = true ∧ tbs = s.retInfo.tbSize) := by
        rintro ⟨hok, htbs⟩
        simp [hok, htbs] at hnew
      constructor
      · intro he
        exact ⟨hno, congrArg UlResources.pdcch he⟩
      · rintro ⟨-, rfl⟩
        rfl
    · rename_i hnew
      constructor
      · intro he
        -- the record has another time domain allocation now
        exact absurd (congrArg (fun r => r.retInfo.timeDomainAllocation) he) htda
      · rintro ⟨hno, -⟩
        refine absurd ?_ hno
        simpa using hnew

theorem findRbs_pdcch : (x.findRbs s).2.pdcch = s.pdcch := by
  rw [findRbs]
  obtain ⟨ret, tbs, nbRb⟩ := x.newRbs s
  split
  · rfl
  · dsimp only
    split <;> rfl

/-- A failed retransmission is undone if and only if the parameters stay, or another time domain
allocation has no blocks, or there are both blocks and a CCE, so that it does not fail. -/
theorem failureUndone_iff : x.FailureUndone s ↔
    x.SamePs s ∨ (x.tda s ≠ s.retInfo.timeDomainAllocation ∧ ¬ x.HasRbs s) ∨
      (x.HasRbs s ∧ ∃ m, x.Finds s m) := by
  have hrbs := x.findRbs_fst_eq_none_iff (s := s)
  have hsnd := x.findRbs_snd_eq_iff (s := s)
  have hpdcch := x.findRbs_pdcch (s := s)
  rw [FailureUndone, allocateUlRetransmission]
  generalize x.findRbs s = result at *
  obtain ⟨found, s'⟩ := result
  cases found with
  | none =>
      have hno : ¬ x.HasRbs s := hrbs.mp rfl
      have hs' := hsnd s'.pdcch
      simp only [hno, not_false_eq_true, and_true, false_and, or_false, forall_const] at hs' ⊢
      rw [hs', and_iff_left hpdcch]
  | some rbStart =>
      have hhas : x.HasRbs s := by
        by_contra h
        cases hrbs.mpr h
      dsimp only at hpdcch ⊢
      rw [hpdcch]
      rcases s.pdcch.findPdcchCandidate_cases x.request with ⟨hfind, hno⟩ | ⟨m, hfind, hm⟩
      · have hfinds : ∀ m, ¬ x.Finds s m := hno
        rw [hfind]
        simp [hsnd, hhas, hfinds]
      · have hfinds : ∀ m', x.Finds s m' ↔ m' = m := hm
        rw [hfind]
        simp [hhas, hfinds]

end UlAttempt

/-! ## All three -/

/-- A record of zeros. -/
def PdschRecord.zero : PdschRecord where
  rbSize := 0
  rbStart := 0
  mcs := 0
  R := 0
  Qm := 0
  tbSize := 0
  dlHarqPid := 0
  pucchAllocation := 0
  timeDomainAllocation := 0

/-- Two symbols without a PDSCH-Config. -/
def twoSymbols : PdschCfg where
  rrcProcessingTimer := 0
  pdschConfig := none
  tdaList := fun _ =>
    { typeB := false, startSymbolIndex := 2, nrOfSymbols := 2, symbols_le := by decide }
  dciFormat11 := false
  fillDmrsMask := fun _ _ _ _ => 4

/-- New data for a UE for which there is no PUCCH occasion. -/
def noOccasion : DlNewData where
  bwpSize := 18
  tda := 0
  cfg := twoSymbols
  request :=
    { coreset := PdcchMac.threeCces, aggregation := 1, nrOfCandidates := 2, Y := 0
      aggregation_pos := Nat.one_pos }
  acknackScheduling := fun _ => none
  availableHarq := true
  maxNumUe := 1
  layers := 1
  numTotalBytes := 100
  timingAdvance := false
  getQmDl := fun _ _ => 2
  getCodeRateDl := fun _ _ => 1200

/-- The start of a slot in which all blocks are free. -/
def emptySlot : DlResources where
  rballocMask := fun _ => 16383#16
  nRbSched := 18
  pdcch := { vrbMap := fun _ => 0#16, pdcchCand := fun _ => 0 }
  retInfo := .zero
  pdschSemiStatic := twoSymbols.setPdschSemiStatic 0 1
    { timeDomainAllocation := 0, numDmrsCdmGrpsNoData := 0, frontloadedSymb := 0, typeB := false
      startSymbolIndex := 0, nrOfSymbols := 0, nrOfLayers := 0, mcsTableIdx := 0, dmrsPortsId := 0
      nPrbDmrs := 0, nDmrsSlot := 0, dlDmrsSymbPos := 0, dmrsConfigType := 0 }

end OaiCu.NrMac
