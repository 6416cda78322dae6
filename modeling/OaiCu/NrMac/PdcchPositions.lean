import OaiCu.NrMac.Pdcch
import OaiCu.Lib.Interleaver
import OaiCu.Lib.EvenSpacing

/-!
# The positions of PDCCH candidates

The test and the marking visit the same positions, so that no two DCIs of a slot meet. Inside a
CORESET different CCEs have different blocks.
-/

namespace OaiCu.NrMac

/-! ## Positions -/

section Positions

variable {p : SchedPdcch} {vrbMap : ℕ → BitVec 16} {first aggregation duration rb : ℕ}

theorem taken_eq_false_iff : p.taken duration vrbMap first aggregation = false ↔
    ∀ rb ∈ p.candidateRbs duration first aggregation,
      vrbMap rb &&& slToBitmap p.startSymbolIndex duration = 0#16 := by
  simp only [SchedPdcch.taken, List.any_eq_false, bne_iff_ne, ne_eq, not_not]

/-- The blocks of the candidate get its symbols, and the others stay. -/
theorem fill_apply (rb : ℕ) : p.fillPdcchVrbMap vrbMap first aggregation rb =
    if rb ∈ p.candidateRbs p.durationSymbols first aggregation then
      vrbMap rb ||| slToBitmap p.startSymbolIndex p.durationSymbols
    else vrbMap rb := by
  rw [SchedPdcch.fillPdcchVrbMap]
  generalize p.candidateRbs p.durationSymbols first aggregation = rbs
  generalize slToBitmap p.startSymbolIndex p.durationSymbols = bits
  induction rbs generalizing vrbMap with
  | nil => rfl
  | cons x rbs ih =>
      rw [List.foldl_cons, ih]
      rcases eq_or_ne rb x with rfl | hne
      · rw [Function.update_self, if_pos List.mem_cons_self, BitVec.or_assoc, BitVec.or_self,
          ite_self]
      · rw [Function.update_of_ne hne]
        simp only [List.mem_cons, hne, false_or]

end Positions

namespace PdcchMac.Dci

/-- The candidate counts as taken if nothing but this position is used. -/
def Tested (d : Dci) (rb symbol : ℕ) : Prop :=
  d.request.coreset.pdcch.taken d.request.coreset.duration
    (fun rb' => if rb' = rb then BitVec.twoPow 16 symbol else 0#16) d.firstCce
    d.request.aggregation = true

/-- The position is used after nothing but the DCI was marked. -/
def Marked (d : Dci) (rb symbol : ℕ) : Prop :=
  (d.request.coreset.pdcch.fillPdcchVrbMap (fun _ => 0#16) d.firstCce
    d.request.aggregation rb).getLsbD symbol = true

/-- The DCI is on a candidate of TS 38.213 10.1, inside the CORESET, and was marked where it was
tested. -/
structure Right (d : Dci) : Prop where
  monitored : ∃ m < d.request.nrOfCandidates, d.firstCce = d.request.aggregation *
    ((d.request.Y + m * d.request.nCces / (d.request.aggregation * d.request.nrOfCandidates)) %
      (d.request.nCces / d.request.aggregation))
  inside : ∀ i < d.request.aggregation, d.firstCce + i < d.request.nCces
  tested_iff_marked : ∀ rb symbol, d.Tested rb symbol ↔ d.Marked rb symbol

/-- The blocks of the DCI. -/
def rbs (d : Dci) : List ℕ :=
  d.request.coreset.pdcch.candidateRbs d.request.coreset.duration d.firstCce d.request.aggregation

/-- The symbols of the DCI. -/
def symbols (d : Dci) : BitVec 16 :=
  slToBitmap d.request.coreset.startSymbolIndex d.request.coreset.duration

theorem marked_iff (d : Dci) (rb symbol : ℕ) :
    d.Marked rb symbol ↔ rb ∈ d.rbs ∧ d.symbols.getLsbD symbol = true := by
  rw [Marked, fill_apply]
  split
  · rename_i h
    rw [BitVec.getLsbD_or, BitVec.getLsbD_zero, Bool.false_or]
    exact (and_iff_right h).symm
  · rename_i h
    rw [BitVec.getLsbD_zero]
    exact iff_of_false Bool.false_ne_true fun hm => h hm.1

theorem tested_iff (d : Dci) (rb symbol : ℕ) :
    d.Tested rb symbol ↔ rb ∈ d.rbs ∧ d.symbols.getLsbD symbol = true := by
  rw [Tested, ← Bool.not_eq_false, taken_eq_false_iff]
  change ¬ (∀ rb' ∈ d.rbs, _ &&& d.symbols = 0#16) ↔ _
  constructor
  · intro h
    by_contra hno
    refine h fun rb' hrb' => and_eq_zero_iff.mpr fun i hi => ?_
    split at hi
    · rename_i heq
      rw [BitVec.getLsbD_twoPow, Bool.and_eq_true, decide_eq_true_eq, decide_eq_true_eq] at hi
      obtain rfl : symbol = i := hi.2
      rw [Bool.eq_false_iff]
      exact fun hs => hno ⟨heq ▸ hrb', hs⟩
    · rw [BitVec.getLsbD_zero] at hi
      cases hi
  · rintro ⟨hrb, hs⟩ h
    have hlt : symbol < 16 := BitVec.lt_of_getLsbD hs
    have := and_eq_zero_iff.mp (h rb hrb) symbol (by simp [hlt])
    rw [hs] at this
    cases this

theorem tested_iff_marked (d : Dci) (rb symbol : ℕ) : d.Tested rb symbol ↔ d.Marked rb symbol := by
  rw [tested_iff, marked_iff]

end PdcchMac.Dci

/-! ## One search after another -/

namespace PdcchMac

variable {mac : PdcchMac} {r : PdcchRequest} {rs : List PdcchRequest}

/-- The position is not used. -/
def Free (vrbMap : ℕ → BitVec 16) (rb symbol : ℕ) : Prop := (vrbMap rb).getLsbD symbol = false

/-- What a search finds is one of the candidates, none of whose positions is used. -/
theorem find_some {mac' : PdcchMac} {first : ℕ}
    (h : mac.findPdcchCandidate r = (mac', some first)) :
    mac'.vrbMap = mac.vrbMap ∧ (∃ m < r.nrOfCandidates, first = r.firstCce m) ∧
      ∀ rb symbol, (Dci.mk r first).Marked rb symbol → Free mac.vrbMap rb symbol := by
  rw [findPdcchCandidate] at h
  split at h
  · cases h
  · rename_i m hm
    cases h
    refine ⟨rfl, ⟨m, ?_, rfl⟩, fun rb symbol hmark => ?_⟩
    · have := (List.mem_range'_1.mp (List.mem_of_find?_eq_some hm)).2
      have := (List.mem_range'_1.mp (List.mem_of_find?_eq_some hm)).1
      omega
    · have hfree := List.find?_some hm
      rw [Bool.not_eq_true', taken_eq_false_iff] at hfree
      obtain ⟨hrb, hs⟩ := ((Dci.mk r (r.firstCce m)).marked_iff rb symbol).mp hmark
      rw [Free, Bool.eq_false_iff]
      intro hused
      have := and_eq_zero_iff.mp (hfree rb hrb) symbol hused
      exact Bool.false_ne_true (this.symm.trans hs)

/-- After the marking the positions of the DCI and those used before are used. -/
theorem free_fill {first rb symbol : ℕ}
    (h : Free (r.coreset.pdcch.fillPdcchVrbMap mac.vrbMap first r.aggregation) rb symbol) :
    Free mac.vrbMap rb symbol ∧ ¬ (Dci.mk r first).Marked rb symbol := by
  rw [Free, fill_apply] at h
  rw [Dci.marked_iff]
  split at h
  · rw [BitVec.getLsbD_or, Bool.or_eq_false_iff] at h
    exact ⟨h.1, fun hm => Bool.false_ne_true (h.2.symm.trans hm.2)⟩
  · rename_i hrb
    exact ⟨h, fun hm => hrb hm.1⟩

/-- A search and the marking. -/
theorem allocate_cases (mac : PdcchMac) (r : PdcchRequest) :
    ((mac.allocate r).1.vrbMap = mac.vrbMap ∧ (mac.allocate r).2 = []) ∨
      ∃ first, (mac.allocate r).2 = [Dci.mk r first] ∧
        (∃ m < r.nrOfCandidates, first = r.firstCce m) ∧
        (∀ rb symbol, (Dci.mk r first).Marked rb symbol → Free mac.vrbMap rb symbol) ∧
        ∀ rb symbol, Free (mac.allocate r).1.vrbMap rb symbol →
          Free mac.vrbMap rb symbol ∧ ¬ (Dci.mk r first).Marked rb symbol := by
  rw [allocate]
  cases hfound : mac.findPdcchCandidate r with
  | mk mac' found =>
      cases found with
      | none =>
          refine .inl ⟨?_, rfl⟩
          rw [findPdcchCandidate] at hfound
          split at hfound
          · cases hfound
            rfl
          · cases hfound
      | some first =>
          obtain ⟨hmap, hcand, hfree⟩ := find_some hfound
          refine .inr ⟨first, rfl, hcand, hfree, fun rb symbol h => ?_⟩
          dsimp only at h
          rw [hmap] at h
          exact free_fill h

/-- Every DCI of a slot is on a candidate of its request, its positions were not used before, and
no position is used by two of them. -/
theorem allocateAll_spec (mac : PdcchMac) (rs : List PdcchRequest) :
    (∀ d ∈ (mac.allocateAll rs).2, d.request ∈ rs ∧
      (∃ m < d.request.nrOfCandidates, d.firstCce = d.request.firstCce m) ∧
      ∀ rb symbol, d.Marked rb symbol → Free mac.vrbMap rb symbol) ∧
    (mac.allocateAll rs).2.Pairwise fun d d' => ∀ rb symbol, d.Marked rb symbol →
      ¬ d'.Marked rb symbol := by
  induction rs generalizing mac with
  | nil => exact ⟨fun _ h => absurd h List.not_mem_nil, List.Pairwise.nil⟩
  | cons r rs ih =>
      obtain ⟨hrest, hpair⟩ := ih (mac.allocate r).1
      rw [allocateAll]
      dsimp only
      rcases allocate_cases mac r with ⟨hmap, hnone⟩ | ⟨first, hone, hcand, hfree, hkept⟩
      · rw [hnone, List.nil_append]
        rw [hmap] at hrest
        exact ⟨fun d hd => ⟨List.mem_cons_of_mem r (hrest d hd).1, (hrest d hd).2⟩, hpair⟩
      · rw [hone, List.singleton_append]
        refine ⟨fun d hd => ?_, List.Pairwise.cons (fun d hd rb symbol hm hm' => ?_) hpair⟩
        · rcases List.mem_cons.mp hd with rfl | hd
          · exact ⟨List.mem_cons_self, hcand, hfree⟩
          · obtain ⟨hmem, hc, hf⟩ := hrest d hd
            exact ⟨List.mem_cons_of_mem r hmem, hc, fun rb symbol hm =>
              (hkept rb symbol (hf rb symbol hm)).1⟩
        · exact (hkept rb symbol ((hrest d hd).2.2 rb symbol hm')).2 hm

/-! ## The first search of a slot -/

section FirstSearch

variable {vrbMap : ℕ → BitVec 16} {m : ℕ}

/-- The candidate has no used position. -/
def Untaken (vrbMap : ℕ → BitVec 16) (r : PdcchRequest) (m : ℕ) : Prop :=
  r.coreset.pdcch.taken r.coreset.duration vrbMap (r.firstCce m) r.aggregation = false

theorem allocateAll_of_find
    (h : ((List.range' 0 r.nrOfCandidates).find? fun m =>
      !r.coreset.pdcch.taken r.coreset.duration vrbMap (r.firstCce m) r.aggregation) = some m) :
    ((slotStart vrbMap).allocateAll [r]).2 = [⟨r, r.firstCce m⟩] := by
  have hfound : ((slotStart vrbMap).findPdcchCandidate r).2 = some (r.firstCce m) := by
    simp only [findPdcchCandidate, slotStart, Nat.sub_zero, h]
  have hone : ((slotStart vrbMap).allocate r).2 = [⟨r, r.firstCce m⟩] := by
    simp only [allocate, hfound]
  simp only [allocateAll, hone, List.append_nil]

/-- If a candidate is free, the first search finds one. -/
theorem allocateAll_single (hm : m < r.nrOfCandidates) (hfree : Untaken vrbMap r m) :
    ∃ m', Untaken vrbMap r m' ∧
      ((slotStart vrbMap).allocateAll [r]).2 = [⟨r, r.firstCce m'⟩] := by
  have hsome : ((List.range' 0 r.nrOfCandidates).find? fun m =>
      !r.coreset.pdcch.taken r.coreset.duration vrbMap (r.firstCce m) r.aggregation).isSome :=
    List.find?_isSome.mpr ⟨m, List.mem_range'_1.mpr ⟨Nat.zero_le m, by omega⟩,
      (Bool.not_eq_true' _).mpr hfree⟩
  obtain ⟨m', hm'⟩ := Option.isSome_iff_exists.mp hsome
  have hnot := List.find?_some hm'
  exact ⟨m', (Bool.not_eq_true' _).mp hnot, allocateAll_of_find hm'⟩

/-- If candidate 0 is free, it is found. -/
theorem allocateAll_zero (hM : 0 < r.nrOfCandidates) (hfree : Untaken vrbMap r 0) :
    ((slotStart vrbMap).allocateAll [r]).2 = [⟨r, r.firstCce 0⟩] := by
  refine allocateAll_of_find ?_
  obtain ⟨k, hk⟩ := Nat.exists_eq_succ_of_ne_zero (Nat.ne_of_gt hM)
  rw [hk, List.range'_succ, List.find?_cons_of_pos]
  exact (Bool.not_eq_true' _).mpr hfree

end FirstSearch

end PdcchMac

/-! ## The blocks of different CCEs -/

namespace Coreset

variable (c : Coreset)

/-- REG bundles of a CCE. -/
def bundlesPerCce : ℕ := 6 / c.regBundleSize

theorem duration_pos : 0 < c.duration := by
  rcases c.duration_mem with h | h | h <;> omega

theorem regBundleSize_dvd : c.regBundleSize ∣ 6 := by
  rcases c.regBundleSize_mem with h | h
  · rcases c.duration_mem with hd | hd | hd <;> rw [h, hd] <;> decide
  · rw [h]

theorem regBundleSize_pos : 0 < c.regBundleSize :=
  Nat.pos_of_dvd_of_pos c.regBundleSize_dvd (by decide)

theorem mul_bundlesPerCce : c.regBundleSize * c.bundlesPerCce = 6 :=
  Nat.mul_div_cancel' c.regBundleSize_dvd

theorem bundlesPerCce_pos : 0 < c.bundlesPerCce :=
  Nat.div_pos (Nat.le_of_dvd (by decide) c.regBundleSize_dvd) c.regBundleSize_pos

/-- A bundle has at least one block. -/
theorem bundleRbs_pos : 0 < c.regBundleSize / c.duration := by
  refine Nat.div_pos ?_ c.duration_pos
  rcases c.regBundleSize_mem with h | h
  · exact Nat.le_of_eq h.symm
  · rcases c.duration_mem with hd | hd | hd <;> omega

/-- The REGs of a CORESET are those of its CCEs. -/
theorem regs_eq : c.nRb * c.duration = 6 * c.nCces :=
  (Nat.mul_div_cancel' (c.six_dvd_nRb.mul_right _)).symm

theorem nCces_pos : 0 < c.nCces := by
  have h : 0 < c.nRb * c.duration := Nat.mul_pos c.nRb_pos c.duration_pos
  rw [c.regs_eq] at h
  exact Nat.pos_of_mul_pos_left h

/-- The bundles of a CORESET are those of its CCEs. -/
theorem bundles_eq : c.nRb * c.duration / c.regBundleSize = c.bundlesPerCce * c.nCces := by
  rw [c.regs_eq, ← c.mul_bundlesPerCce, Nat.mul_assoc,
    Nat.mul_div_cancel_left _ c.regBundleSize_pos]

theorem firstBundle_eq (j : ℕ) : 6 * j / c.regBundleSize = c.bundlesPerCce * j := by
  rw [← c.mul_bundlesPerCce, Nat.mul_assoc, Nat.mul_div_cancel_left _ c.regBundleSize_pos]

/-- Where bundle `k` is. -/
def place (k : ℕ) : ℕ :=
  cceToRegInterleaving c.interleaverSize k c.shiftIndex
    (if c.interleaverSize > 0 then c.nRb * c.duration / (c.regBundleSize * c.interleaverSize)
      else 0) c.regBundleSize (c.nRb * c.duration)

/-- The interleaver is a permutation of the bundles. -/
theorem place_injective {k k' : ℕ} (hk : k < c.bundlesPerCce * c.nCces)
    (hk' : k' < c.bundlesPerCce * c.nCces) (h : c.place k = c.place k') : k = k' := by
  rw [place, place, cceToRegInterleaving, cceToRegInterleaving] at h
  by_cases hR : c.interleaverSize = 0
  · rwa [if_pos hR, if_pos hR] at h
  · have hdvd := c.interleaverSize_dvd hR
    have hcols : c.interleaverSize *
        (c.nRb * c.duration / (c.regBundleSize * c.interleaverSize)) =
          c.bundlesPerCce * c.nCces := by
      rw [← Nat.div_div_eq_div_mul, Nat.mul_div_cancel' hdvd, c.bundles_eq]
    rw [if_neg hR, if_neg hR, if_pos (Nat.pos_of_ne_zero hR), c.bundles_eq, ← hcols] at h
    rw [← hcols] at hk hk'
    exact Interleaver.place_injective hk hk' h

theorem mem_cceRbs {rb j : ℕ} : rb ∈ c.pdcch.cceRbs c.duration j ↔
    ∃ i < c.bundlesPerCce, ∃ b < c.regBundleSize / c.duration,
      c.bwpStart + c.place (c.bundlesPerCce * j + i) * (c.regBundleSize / c.duration) + b = rb := by
  have hfirst : 6 * j / c.pdcch.regBundleSize = c.bundlesPerCce * j := c.firstBundle_eq j
  simp only [SchedPdcch.cceRbs, List.mem_flatMap, List.mem_range, SchedPdcch.bundleRbs,
    List.mem_map, hfirst]
  rfl

/-- Different CCEs have no block in common. -/
theorem cceRbs_disjoint {j j' rb : ℕ} (hj : j < c.nCces) (hj' : j' < c.nCces)
    (h : rb ∈ c.pdcch.cceRbs c.duration j) (h' : rb ∈ c.pdcch.cceRbs c.duration j') : j = j' := by
  obtain ⟨i, hi, b, hb, rfl⟩ := c.mem_cceRbs.mp h
  obtain ⟨i', hi', b', hb', heq⟩ := c.mem_cceRbs.mp h'
  have hlt : ∀ {j i}, j < c.nCces → i < c.bundlesPerCce →
      c.bundlesPerCce * j + i < c.bundlesPerCce * c.nCces := fun {j i} hj hi => by
    calc c.bundlesPerCce * j + i < c.bundlesPerCce * j + c.bundlesPerCce := Nat.add_lt_add_left hi _
      _ = c.bundlesPerCce * (j + 1) := (Nat.mul_succ _ _).symm
      _ ≤ c.bundlesPerCce * c.nCces := Nat.mul_le_mul_left _ hj
  -- the block tells the place of the bundle, the place the bundle, the bundle the CCE
  have hplace : c.place (c.bundlesPerCce * j + i) = c.place (c.bundlesPerCce * j' + i') := by
    have hdiv := congrArg (fun x => (x - c.bwpStart) / (c.regBundleSize / c.duration)) heq
    simp only [Nat.add_assoc, Nat.add_sub_cancel_left] at hdiv
    rw [Nat.mul_comm, Nat.mul_comm (c.place (c.bundlesPerCce * j + i)),
      Nat.mul_add_div c.bundleRbs_pos, Nat.mul_add_div c.bundleRbs_pos, Nat.div_eq_of_lt hb,
      Nat.div_eq_of_lt hb'] at hdiv
    exact hdiv.symm
  have hbundle := c.place_injective (hlt hj hi) (hlt hj' hi') hplace
  have hcce := congrArg (· / c.bundlesPerCce) hbundle
  simp only [Nat.mul_add_div c.bundlesPerCce_pos, Nat.div_eq_of_lt hi,
    Nat.div_eq_of_lt hi'] at hcce
  exact hcce

/-- A CCE has a block. -/
theorem exists_mem_cceRbs (j : ℕ) : ∃ rb, rb ∈ c.pdcch.cceRbs c.duration j :=
  ⟨_, c.mem_cceRbs.mpr ⟨0, c.bundlesPerCce_pos, 0, c.bundleRbs_pos, rfl⟩⟩

theorem mem_candidateRbs {rb first aggregation : ℕ} :
    rb ∈ c.pdcch.candidateRbs c.duration first aggregation ↔
      ∃ i < aggregation, rb ∈ c.pdcch.cceRbs c.duration (first + i) := by
  simp only [SchedPdcch.candidateRbs, List.mem_flatMap, List.mem_range]

end Coreset

/-!
## Which PDCCH candidates are used

The candidates are those that the UE looks at, and inside the CORESET, exactly if the aggregation
level divides the CORESET and the candidates are spaced without rounding or reach every place: the
source rounds up where TS 38.213 10.1 rounds down.
-/

open EvenSpacing

/-- No candidate, or a level that divides the CORESET into places of which the candidates reach
evenly spaced ones or all. -/
def Coreset.Aligned (c : Coreset) (aggregation nrOfCandidates : ℕ) : Prop :=
  nrOfCandidates = 0 ∨ aggregation ∣ c.nCces ∧
    (nrOfCandidates ∣ c.nCces / aggregation ∨ c.nCces / aggregation ≤ nrOfCandidates)

namespace PdcchRequest

variable {r : PdcchRequest} {m : ℕ}

/-- The first CCE of candidate `m` of TS 38.213 10.1. -/
def specCce (r : PdcchRequest) (m : ℕ) : ℕ :=
  r.aggregation *
    ((r.Y + m * r.nCces / (r.aggregation * r.nrOfCandidates)) % (r.nCces / r.aggregation))

/-- The first candidate is at `Y`, on one place more if the level does not divide the CORESET. -/
theorem firstCce_zero (r : PdcchRequest) :
    r.firstCce 0 = r.aggregation * (r.Y % ceilDiv r.nCces r.aggregation) := by
  have h := ceilDiv_zero_left (r.aggregation * r.nrOfCandidates)
  rw [ceilDiv] at h
  rw [firstCce, Nat.zero_mul, ceilIDiv, h]
  rfl

section

variable (h : r.aggregation ∣ r.nCces)
include h

theorem places_pos : 0 < r.nCces / r.aggregation :=
  Nat.div_pos (Nat.le_of_dvd r.coreset.nCces_pos h) r.aggregation_pos

theorem spacing_eq (m : ℕ) :
    m * r.nCces = r.aggregation * (m * (r.nCces / r.aggregation)) := by
  rw [Nat.mul_left_comm, Nat.mul_div_cancel' h]

theorem firstCce_eq (hM : 0 < r.nrOfCandidates) (m : ℕ) : r.firstCce m = r.aggregation *
    ((r.Y + ceilDiv (m * (r.nCces / r.aggregation)) r.nrOfCandidates) %
      (r.nCces / r.aggregation)) := by
  have hspace : ceilIDiv (m * r.nCces) (r.aggregation * r.nrOfCandidates) =
      ceilDiv (m * (r.nCces / r.aggregation)) r.nrOfCandidates := by
    rw [spacing_eq h]
    exact ceilDiv_mul_left r.aggregation_pos hM
  have hplaces : ceilIDiv r.nCces r.aggregation = r.nCces / r.aggregation :=
    (ceilDiv_eq_div_iff r.aggregation_pos).mpr h
  rw [firstCce, hspace, hplaces, Nat.add_zero]

theorem specCce_eq (m : ℕ) : r.specCce m = r.aggregation *
    ((r.Y + m * (r.nCces / r.aggregation) / r.nrOfCandidates) % (r.nCces / r.aggregation)) := by
  rw [specCce, spacing_eq h, Nat.mul_div_mul_left _ _ r.aggregation_pos]

/-- The candidates are inside the CORESET. -/
theorem firstCce_inside (hM : 0 < r.nrOfCandidates) (m : ℕ) :
    r.firstCce m + r.aggregation ≤ r.nCces := by
  rw [firstCce_eq h hM, ← Nat.mul_succ]
  calc r.aggregation * (_ % (r.nCces / r.aggregation)).succ
      ≤ r.aggregation * (r.nCces / r.aggregation) :=
        Nat.mul_le_mul_left _ (Nat.mod_lt _ (places_pos h))
    _ = r.nCces := Nat.mul_div_cancel' h

/-- All candidates are candidates of the specification exactly if nothing is rounded or every place
is reached. -/
theorem forall_spec_iff (hM : 0 < r.nrOfCandidates) :
    (∀ m < r.nrOfCandidates, ∃ m' < r.nrOfCandidates, r.firstCce m = r.specCce m') ↔
      r.nrOfCandidates ∣ r.nCces / r.aggregation ∨
        r.nCces / r.aggregation ≤ r.nrOfCandidates := by
  rw [← ceil_mem_iff hM (places_pos h)]
  refine forall₂_congr fun m _ => exists_congr fun m' => and_congr_right fun _ => ?_
  rw [firstCce_eq h hM, specCce_eq h]
  constructor
  · intro heq
    exact Nat.ModEq.add_left_cancel' r.Y (Nat.eq_of_mul_eq_mul_left r.aggregation_pos heq)
  · intro heq
    exact congrArg (r.aggregation * ·) (Nat.ModEq.add_left r.Y heq)

/-- If only one candidate is free, it is found. -/
theorem exists_found (hM : m < r.nrOfCandidates) : ∃ vrbMap,
    ((PdcchMac.slotStart vrbMap).allocateAll [r]).2 = [⟨r, r.firstCce m⟩] := by
  have hpos : 0 < r.nrOfCandidates := Nat.zero_lt_of_lt hM
  have hbits : slToBitmap r.coreset.startSymbolIndex r.coreset.duration ≠ 0#16 := by
    have := r.coreset.symbols_le
    exact slToBitmap_ne_zero r.coreset.duration_pos (by omega)
  -- all blocks are used but those of candidate `m`
  let vrbMap : ℕ → BitVec 16 := fun rb =>
    if rb ∈ r.coreset.pdcch.candidateRbs r.coreset.duration (r.firstCce m) r.aggregation then 0#16
    else BitVec.allOnes 16
  have hfree : PdcchMac.Untaken vrbMap r m := taken_eq_false_iff.mpr fun rb hrb => by
    simp only [vrbMap, if_pos hrb, BitVec.zero_and]
  have hother : ∀ m', PdcchMac.Untaken vrbMap r m' → r.firstCce m' = r.firstCce m := by
    intro m' hm'
    obtain ⟨rb, hrb⟩ := r.coreset.exists_mem_cceRbs (r.firstCce m')
    have hmem : rb ∈ r.coreset.pdcch.candidateRbs r.coreset.duration (r.firstCce m')
        r.aggregation := r.coreset.mem_candidateRbs.mpr ⟨0, r.aggregation_pos, hrb⟩
    have hin : rb ∈ r.coreset.pdcch.candidateRbs r.coreset.duration (r.firstCce m)
        r.aggregation := by
      by_contra hno
      have := taken_eq_false_iff.mp hm' rb hmem
      simp only [vrbMap, if_neg hno, BitVec.allOnes_and] at this
      exact hbits this
    obtain ⟨i, hi, hrb'⟩ := r.coreset.mem_candidateRbs.mp hin
    have hlt : r.firstCce m + i < r.coreset.nCces :=
      Nat.lt_of_lt_of_le (Nat.add_lt_add_left hi _) (firstCce_inside h hpos m)
    have hlt' : r.firstCce m' < r.coreset.nCces :=
      Nat.lt_of_lt_of_le (Nat.lt_add_of_pos_right r.aggregation_pos) (firstCce_inside h hpos m')
    have heq := r.coreset.cceRbs_disjoint hlt' hlt hrb hrb'
    -- both start at a multiple of the level
    rw [firstCce_eq h hpos, firstCce_eq h hpos] at heq ⊢
    have hdiv := congrArg (· / r.aggregation) heq
    simp only [Nat.mul_add_div r.aggregation_pos, Nat.mul_div_cancel_left _ r.aggregation_pos,
      Nat.div_eq_of_lt hi, Nat.add_zero] at hdiv
    rw [hdiv]
  obtain ⟨m', hm', hfound⟩ := PdcchMac.allocateAll_single hM hfree
  exact ⟨vrbMap, by rw [hfound, hother m' hm']⟩

end

end PdcchRequest

namespace PdcchMac

/-- The DCIs of a slot are right one by one, and no position is used by two of them. -/
def SlotRight (dcis : List Dci) : Prop :=
  (∀ d ∈ dcis, d.Right) ∧
    dcis.Pairwise fun d d' => ∀ rb symbol, d.Marked rb symbol → ¬ d'.Marked rb symbol

/-- An aligned request gets candidates of the specification. -/
theorem right_of_aligned {d : Dci} {m : ℕ}
    (hc : d.request.coreset.Aligned d.request.aggregation d.request.nrOfCandidates)
    (hm : m < d.request.nrOfCandidates) (hd : d.firstCce = d.request.firstCce m) : d.Right := by
  have hM : 0 < d.request.nrOfCandidates := Nat.zero_lt_of_lt hm
  rcases hc with h0 | ⟨hdvd, hspace⟩
  · exact absurd h0 (Nat.ne_of_gt hM)
  · obtain ⟨m', hm', hspec⟩ := (PdcchRequest.forall_spec_iff hdvd hM).mpr hspace m hm
    refine ⟨⟨m', hm', hd.trans hspec⟩, fun i hi => ?_, d.tested_iff_marked⟩
    rw [hd]
    exact Nat.lt_of_lt_of_le (Nat.add_lt_add_left hi _)
      (PdcchRequest.firstCce_inside hdvd hM m)

/-- If the level does not divide the CORESET, the last place is not inside it. -/
theorem dvd_of_right {c : Coreset} {L M : ℕ} (hL : 0 < L) (hM : 0 < M)
    (h : ∀ vrbMap Y, SlotRight ((slotStart vrbMap).allocateAll [⟨c, L, M, Y, hL⟩]).2) :
    L ∣ c.nCces := by
  by_contra hno
  -- nothing is used, so that candidate 0 is found
  let r : PdcchRequest := ⟨c, L, M, c.nCces / L, hL⟩
  have hfound := allocateAll_zero hM (r := r)
    (taken_eq_false_iff.mpr fun _ _ => BitVec.zero_and)
  have hlast : r.firstCce 0 = L * (c.nCces / L) := by
    rw [PdcchRequest.firstCce_zero]
    change L * (c.nCces / L % ceilDiv c.nCces L) = _
    rw [ceilDiv_of_pos hL, if_neg hno, Nat.mod_eq_of_lt (Nat.lt_succ_self _)]
  obtain ⟨hright, -⟩ := h (fun _ => 0#16) (c.nCces / L)
  rw [hfound] at hright
  have hinside := (hright _ (List.mem_singleton_self _)).inside (c.nCces % L) (Nat.mod_lt _ hL)
  change r.firstCce 0 + c.nCces % L < c.nCces at hinside
  rw [hlast, Nat.div_add_mod] at hinside
  exact Nat.lt_irrefl _ hinside

/-- If every candidate that is found is one of the specification, the spacing is not rounded or
every place is reached. -/
theorem spacing_of_right {c : Coreset} {L M : ℕ} (hL : 0 < L) (hM : 0 < M) (hdvd : L ∣ c.nCces)
    (h : ∀ vrbMap Y, SlotRight ((slotStart vrbMap).allocateAll [⟨c, L, M, Y, hL⟩]).2) :
    M ∣ c.nCces / L ∨ c.nCces / L ≤ M := by
  let r : PdcchRequest := ⟨c, L, M, 0, hL⟩
  have hr : r.aggregation ∣ r.nCces := hdvd
  refine (r.forall_spec_iff hr hM).mp fun m hm => ?_
  obtain ⟨vrbMap, hfound⟩ := r.exists_found hr hm
  obtain ⟨hright, -⟩ := h vrbMap 0
  rw [hfound] at hright
  exact (hright _ (List.mem_singleton_self _)).monitored

/-- The DCIs of every slot are right exactly if only aligned candidates are asked for. -/
theorem pdcch_right_iff (allowed : Coreset → ℕ → ℕ → Prop) :
    (∀ vrbMap rs, (∀ r ∈ rs, allowed r.coreset r.aggregation r.nrOfCandidates) →
      SlotRight ((slotStart vrbMap).allocateAll rs).2) ↔
    ∀ c L M, 0 < L → allowed c L M → c.Aligned L M := by
  constructor
  · intro h c L M hL hc
    rcases Nat.eq_zero_or_pos M with rfl | hM
    · exact .inl rfl
    · have hone : ∀ vrbMap Y,
          SlotRight ((slotStart vrbMap).allocateAll [⟨c, L, M, Y, hL⟩]).2 := by
        intro vrbMap Y
        refine h vrbMap _ fun r hr => ?_
        rw [List.mem_singleton.mp hr]
        exact hc
      have hdvd := dvd_of_right hL hM hone
      exact .inr ⟨hdvd, spacing_of_right hL hM hdvd hone⟩
  · intro h vrbMap rs hrs
    obtain ⟨hone, hpair⟩ := allocateAll_spec (slotStart vrbMap) rs
    refine ⟨fun d hd => ?_, hpair⟩
    obtain ⟨hmem, ⟨m, hm, hfirst⟩, -⟩ := hone d hd
    exact right_of_aligned (h _ _ _ d.request.aggregation_pos (hrs _ hmem)) hm hfirst

/-- 18 blocks of one symbol, not interleaved: 3 CCEs. -/
def threeCces : Coreset where
  controlResourceSetId := 1
  bwpStart := 0
  nRb := 18
  startSymbolIndex := 0
  duration := 1
  regBundleSize := 6
  interleaverSize := 0
  shiftIndex := 0
  nRb_pos := by decide
  six_dvd_nRb := by decide
  duration_mem := by decide
  symbols_le := by decide
  regBundleSize_mem := by decide
  interleaverSize_mem := by decide
  interleaverSize_dvd := by decide

/-- At level 2 the second place starts at CCE 2, and CCE 3 is not in the CORESET. -/
theorem pdcch_outside : ¬ SlotRight ((slotStart fun _ => 0#16).allocateAll
    [⟨threeCces, 2, 1, 1, by decide⟩]).2 := by
  intro h
  have hfound : (⟨⟨threeCces, 2, 1, 1, by decide⟩, 2⟩ : Dci) ∈
      ((slotStart fun _ => 0#16).allocateAll [⟨threeCces, 2, 1, 1, by decide⟩]).2 :=
    List.mem_singleton_self _
  have hinside := (h.1 _ hfound).inside 1 (by decide)
  exact absurd hinside (by decide)

end PdcchMac

end OaiCu.NrMac
