import OaiCu.Lib.Machine
import Mathlib.Data.BitVec

/-!
# The dedicated preambles (`sch_rach.c`)

A UE gets a preamble of its own for each SSB that it asks for. The cell marks the preambles in use
in a bitmap of 64 bits, which it reaches with a shift of 32 bits.
-/

namespace OaiCu.OduSch

structure SchCfraSsbResource where
  ssbIdx : ℕ
  raPreambleIdx : ℕ
deriving DecidableEq, Repr

/-- The fields of `SchCellCb` for the dedicated preambles. `cfraResource` has the first `numSsb`
entries of the UE with a C-RNTI, if there is one. -/
structure CfraCell where
  cellId : ℕ
  numCbPreamblePerSsb : ℕ
  totalNumRaPreamble : ℕ
  dedPreambleBitMap : BitVec 64
  cfraResource : ℕ → Option (List SchCfraSsbResource)

/-- A message from MAC, with the SSBs that it names. -/
inductive RachMsg
  | rsrcReq (cellId crnti : ℕ) (ssbIdx : List ℕ)
  | rsrcRel (cellId crnti : ℕ) (ssbIdx : List ℕ)
deriving DecidableEq, Repr

structure SchRachRsrcRsp where
  crnti : ℕ
  rspOk : Bool
  cfraResource : List SchCfraSsbResource
deriving DecidableEq, Repr

/-- `1 << bitPos` as a number of 64 bits. The shift is one of 32 bits. -/
def oneBit (bitPos : ℕ) : Option (BitVec 64) :=
  if bitPos < 32 then some ((1#32 <<< bitPos).signExtend 64) else none

/-- The search for a free preamble, for at most `n` more of them. -/
def nextPreamble (dedPreambleBitMap : BitVec 64) (lastCFPreambleIndex : ℕ) : ℕ → ℕ → Option ℕ
  | 0, firstCFPreambleIndex => some firstCFPreambleIndex
  | n + 1, firstCFPreambleIndex =>
    if firstCFPreambleIndex ≤ lastCFPreambleIndex then do
      let mask ← oneBit firstCFPreambleIndex
      if dedPreambleBitMap &&& mask ≠ 0 then
        nextPreamble dedPreambleBitMap lastCFPreambleIndex n (firstCFPreambleIndex + 1)
      else some firstCFPreambleIndex
    else some firstCFPreambleIndex

/-- The loop over the SSBs of a request: the entries and the bitmap. -/
def assignPreambles (lastCFPreambleIndex : ℕ) :
    List ℕ → ℕ → BitVec 64 → Option (List SchCfraSsbResource × BitVec 64)
  | [], _, dedPreambleBitMap => some ([], dedPreambleBitMap)
  | ssbIdx :: rest, firstCFPreambleIndex, dedPreambleBitMap => do
    let raPreambleIdx ← nextPreamble dedPreambleBitMap lastCFPreambleIndex
      (lastCFPreambleIndex + 1 - firstCFPreambleIndex) firstCFPreambleIndex
    if raPreambleIdx ≤ lastCFPreambleIndex then
      let mask ← oneBit raPreambleIdx
      let (entries, dedPreambleBitMap) ←
        assignPreambles lastCFPreambleIndex rest (raPreambleIdx + 1) (mask ||| dedPreambleBitMap)
      return (⟨ssbIdx, raPreambleIdx⟩ :: entries, dedPreambleBitMap)
    else return ([], dedPreambleBitMap)

/-- The loop over the SSBs of a release. The entry that is found is cleared, and the number of
entries goes down by one. -/
def releasePreambles : List ℕ → List SchCfraSsbResource → BitVec 64 →
    Option (List SchCfraSsbResource × BitVec 64)
  | [], entries, dedPreambleBitMap => some (entries, dedPreambleBitMap)
  | ssbIdx :: rest, entries, dedPreambleBitMap =>
    match entries.findIdx? fun e => e.ssbIdx = ssbIdx with
    | none => releasePreambles rest entries dedPreambleBitMap
    | some cfraSsbIdx => do
      let entry ← entries[cfraSsbIdx]?
      let mask ← oneBit entry.raPreambleIdx
      releasePreambles rest (entries.set cfraSsbIdx ⟨0, 0⟩).dropLast (~~~mask &&& dedPreambleBitMap)

namespace CfraCell

/-- The entries of a UE are replaced. -/
def setEntries (cell : CfraCell) (crnti : ℕ) (entries : List SchCfraSsbResource)
    (dedPreambleBitMap : BitVec 64) : CfraCell :=
  { cell with
    dedPreambleBitMap := dedPreambleBitMap
    cfraResource := Function.update cell.cfraResource crnti (some entries) }

/-- `MacSchRachRsrcReq`, with the response to MAC. -/
def macSchRachRsrcReq (cell : CfraCell) (cellId crnti : ℕ) (ssbIdx : List ℕ) :
    Option (CfraCell × SchRachRsrcRsp) :=
  if cellId ≠ cell.cellId then some (cell, ⟨crnti, false, []⟩)
  else
    match cell.cfraResource crnti with
    | none => some (cell, ⟨crnti, false, []⟩)
    | some _ => do
      let (entries, dedPreambleBitMap) ← assignPreambles cell.totalNumRaPreamble ssbIdx
        cell.numCbPreamblePerSsb cell.dedPreambleBitMap
      return (cell.setEntries crnti entries dedPreambleBitMap, ⟨crnti, !entries.isEmpty, entries⟩)

/-- `MacSchRachRsrcRel`. -/
def macSchRachRsrcRel (cell : CfraCell) (cellId crnti : ℕ) (ssbIdx : List ℕ) : Option CfraCell :=
  if cellId ≠ cell.cellId then some cell
  else
    match cell.cfraResource crnti with
    | none => some cell
    | some entries => do
      let (entries, dedPreambleBitMap) ← releasePreambles ssbIdx entries cell.dedPreambleBitMap
      return cell.setEntries crnti entries dedPreambleBitMap

/-- A message is processed, with the response if there is one. A shift that is not defined ends
the run. -/
def step (cell : CfraCell) (msg : RachMsg) : Except Unit (CfraCell × List SchRachRsrcRsp) :=
  match msg with
  | .rsrcReq cellId crnti ssbIdx =>
    match cell.macSchRachRsrcReq cellId crnti ssbIdx with
    | some (cell, rsp) => .ok (cell, [rsp])
    | none => .error ()
  | .rsrcRel cellId crnti ssbIdx =>
    match cell.macSchRachRsrcRel cellId crnti ssbIdx with
    | some cell => .ok (cell, [])
    | none => .error ()

end CfraCell

/-! ## The bits -/

/-- The preambles of the entries. -/
def owned (entries : List SchCfraSsbResource) : List ℕ := entries.map (·.raPreambleIdx)

/-- The SSBs of the entries. -/
def heldSsbs (entries : List SchCfraSsbResource) : List ℕ := entries.map (·.ssbIdx)

theorem oneBit_eq : ∀ p < 31, oneBit p = some (1#64 <<< p) := by decide

theorem getLsbD_bit {p : ℕ} (hp : p < 31) (i : ℕ) : (1#64 <<< p).getLsbD i = decide (i = p) := by
  rw [← BitVec.twoPow_eq, BitVec.getLsbD_twoPow, decide_eq_true (by omega : p < 64), Bool.true_and,
    decide_eq_decide]
  exact eq_comm

theorem and_bit_ne_zero {p : ℕ} (hp : p < 31) (map : BitVec 64) :
    map &&& 1#64 <<< p ≠ 0 ↔ map.getLsbD p = true := by
  constructor
  · intro hne
    by_contra hclear
    refine hne (BitVec.eq_of_getLsbD_eq fun i _ => ?_)
    rw [BitVec.getLsbD_and, getLsbD_bit hp, BitVec.ofNat_eq_ofNat, BitVec.getLsbD_zero]
    by_cases hi : i = p
    · rw [hi, (Bool.not_eq_true _).mp hclear, Bool.false_and]
    · rw [decide_eq_false hi, Bool.and_false]
  · intro hset hzero
    have hbit := congrArg (BitVec.getLsbD · p) hzero
    rw [BitVec.getLsbD_and, getLsbD_bit hp, hset, BitVec.ofNat_eq_ofNat, BitVec.getLsbD_zero] at hbit
    simp at hbit

/-- How many of the `n` preambles from `lo` on are free. -/
def numFree (dedPreambleBitMap : BitVec 64) (lo n : ℕ) : ℕ :=
  (List.range' lo n).countP fun p => !dedPreambleBitMap.getLsbD p

section

variable {map : BitVec 64} {last : ℕ}

theorem numFree_succ (map : BitVec 64) (lo n : ℕ) : numFree map lo (n + 1) =
    numFree map (lo + 1) n + if map.getLsbD lo then 0 else 1 := by
  rw [numFree, List.range'_succ, List.countP_cons, numFree]
  cases map.getLsbD lo <;> rfl

/-- A free preamble below 31 is found. -/
theorem nextPreamble_spec : ∀ (n lo : ℕ), lo + n ≤ last → lo + n ≤ 31 → 0 < numFree map lo n →
    ∃ p m, nextPreamble map last (last + 1 - lo) lo = some p ∧ lo ≤ p ∧ p + 1 + m = lo + n ∧
      map.getLsbD p = false ∧ numFree map lo n = numFree map (p + 1) m + 1
  | 0, lo, _, _, h => absurd h (Nat.lt_irrefl 0)
  | n + 1, lo, hlast, h31, h => by
      obtain ⟨k, hk⟩ : ∃ k, last + 1 - lo = k + 1 := ⟨last - lo, by omega⟩
      rw [hk, nextPreamble, if_pos (by omega), oneBit_eq lo (by omega)]
      rw [numFree_succ] at h ⊢
      simp only [Option.bind_eq_bind, Option.bind_some, and_bit_ne_zero (by omega : lo < 31)]
      cases hbit : map.getLsbD lo with
      | false => exact ⟨lo, n, by simp, le_rfl, by omega, hbit, by simp⟩
      | true =>
          rw [hbit] at h
          obtain ⟨p, m, hp, h1, h2, h3, h4⟩ := nextPreamble_spec n (lo + 1) (by omega) (by omega)
            (by simpa using h)
          have hk' : last + 1 - (lo + 1) = k := by omega
          rw [hk'] at hp
          exact ⟨p, m, by simpa using hp, by omega, by omega, h3, by simpa using h4⟩

/-- The bits behind a bit do not change with it. -/
theorem numFree_or {p : ℕ} (hp : p < 31) (m : ℕ) :
    numFree (1#64 <<< p ||| map) (p + 1) m = numFree map (p + 1) m := by
  refine List.countP_congr fun i hi => ?_
  have hne : i ≠ p := by
    have := (List.mem_range'_1.mp hi).1
    omega
  rw [BitVec.getLsbD_or, getLsbD_bit hp, decide_eq_false hne, Bool.false_or]

/-- With enough free preambles below 31, each SSB gets one of them. -/
theorem assignPreambles_spec : ∀ (ssbIdx : List ℕ) (lo n : ℕ) (map : BitVec 64),
    lo + n ≤ last → lo + n ≤ 31 → ssbIdx.length ≤ numFree map lo n →
    ∃ entries map', assignPreambles last ssbIdx lo map = some (entries, map') ∧
      heldSsbs entries = ssbIdx ∧ (owned entries).Nodup ∧
      (∀ p ∈ owned entries, lo ≤ p ∧ p < lo + n ∧ map.getLsbD p = false) ∧
      ∀ i, map'.getLsbD i = true ↔ i ∈ owned entries ∨ map.getLsbD i = true
  | [], lo, n, map, _, _, _ =>
      ⟨[], map, rfl, rfl, List.nodup_nil, (fun _ h => by cases h), fun i => by simp [owned]⟩
  | ssb :: ssbIdx, lo, n, map, hlast, h31, hlen => by
      obtain ⟨p, m, hp, h1, h2, h3, h4⟩ := @nextPreamble_spec map last n lo hlast h31
        (Nat.lt_of_lt_of_le (Nat.succ_pos _) hlen)
      have hp31 : p < 31 := by omega
      obtain ⟨entries, map', he, hssb, hnodup, hrange, hbits⟩ := assignPreambles_spec ssbIdx (p + 1) m
        (1#64 <<< p ||| map) (by omega) (by omega) (by
          rw [numFree_or hp31]
          rw [List.length_cons] at hlen
          omega)
      refine ⟨⟨ssb, p⟩ :: entries, map', ?_, congrArg (ssb :: ·) hssb, ?_, ?_, fun i => ?_⟩
      · rw [assignPreambles, hp]
        simp only [Option.bind_eq_bind, Option.bind_some]
        rw [if_pos (by omega), oneBit_eq p hp31, Option.bind_some, he]
        rfl
      · refine List.nodup_cons.mpr ⟨fun hmem => ?_, hnodup⟩
        have := (hrange p hmem).1
        omega
      · intro i hi
        rcases List.mem_cons.mp hi with rfl | hi
        · exact ⟨h1, by omega, h3⟩
        · obtain ⟨hlo, hhi, hclear⟩ := hrange i hi
          rw [BitVec.getLsbD_or, Bool.or_eq_false_iff] at hclear
          exact ⟨by omega, by omega, hclear.2⟩
      · rw [hbits, BitVec.getLsbD_or, Bool.or_eq_true, getLsbD_bit hp31, decide_eq_true_iff]
        show _ ↔ i ∈ p :: owned entries ∨ _
        rw [List.mem_cons]
        tauto

/-- The entries that a release frees if their SSBs come in the reverse order of the entries. -/
theorem releasePreambles_spec : ∀ (ssbIdx : List ℕ) (entries : List SchCfraSsbResource)
    (map : BitVec 64), ssbIdx.Nodup → (heldSsbs entries).Nodup →
    (∀ p ∈ owned entries, p < 31) →
    ssbIdx.filter (· ∈ heldSsbs entries) <+: (heldSsbs entries).reverse →
    ∃ kept freed map', releasePreambles ssbIdx entries map = some (kept, map') ∧
      entries = kept ++ freed ∧ (∀ e ∈ freed, e.ssbIdx ∈ ssbIdx) ∧
      (∀ e ∈ kept, e.ssbIdx ∉ ssbIdx) ∧
      ∀ i, map'.getLsbD i = true ↔ map.getLsbD i = true ∧ i ∉ owned freed
  | [], entries, map, _, _, _, _ =>
      ⟨entries, [], map, rfl, (List.append_nil _).symm, (fun _ h => by cases h),
        (fun _ _ h => by cases h), fun i => by simp [owned]⟩
  | ssb :: ssbIdx, entries, map, hnodup, hheld, h31, hprefix => by
      obtain ⟨hssb, htail⟩ := List.nodup_cons.mp hnodup
      rw [releasePreambles]
      by_cases hmem : ssb ∈ heldSsbs entries
      -- the SSB is the one of the last entry
      · rw [List.filter_cons_of_pos (by simpa using hmem)] at hprefix
        rcases List.eq_nil_or_concat' entries with rfl | ⟨front, e, rfl⟩
        · cases hmem
        have hrev : (heldSsbs (front ++ [e])).reverse = e.ssbIdx :: (heldSsbs front).reverse := by
          simp [heldSsbs]
        rw [hrev, List.cons_prefix_cons] at hprefix
        obtain ⟨rfl, hprefix⟩ := hprefix
        have hheld' : (heldSsbs front).Nodup ∧ e.ssbIdx ∉ heldSsbs front := by
          rw [heldSsbs, List.map_append, List.nodup_append] at hheld
          exact ⟨hheld.1, fun h => hheld.2.2 _ h _ (List.mem_singleton.mpr rfl) rfl⟩
        have hfilter : ssbIdx.filter (· ∈ heldSsbs (front ++ [e])) =
            ssbIdx.filter (· ∈ heldSsbs front) := by
          refine List.filter_congr fun x hx => ?_
          rw [decide_eq_decide, heldSsbs, List.map_append, List.mem_append, heldSsbs]
          refine or_iff_left fun h => ?_
          exact hssb ((List.mem_singleton.mp h : x = e.ssbIdx) ▸ hx)
        rw [hfilter] at hprefix
        have hfind : (front ++ [e]).findIdx? (fun e' => e'.ssbIdx = e.ssbIdx) =
            some front.length := by
          rw [List.findIdx?_append, List.findIdx?_eq_none_iff.mpr]
          · simp
          · intro x hx
            rw [decide_eq_false_iff_not]
            exact fun he => hheld'.2 (he ▸ List.mem_map_of_mem hx)
        have hp31 := h31 e.raPreambleIdx (List.mem_map_of_mem (List.mem_append_right _
          (List.mem_singleton.mpr rfl)))
        obtain ⟨kept, freed, map', he, rfl, hfreed, hkept, hbits⟩ := releasePreambles_spec ssbIdx front
          (~~~(1#64 <<< e.raPreambleIdx) &&& map) htail hheld'.1
          (fun p hp => h31 p (by simp only [owned, List.map_append, List.mem_append]; exact .inl hp))
          hprefix
        refine ⟨kept, freed ++ [e], map', ?_, (List.append_assoc _ _ _), ?_, ?_, fun i => ?_⟩
        · simp only [hfind, List.getElem?_concat_length, Option.bind_eq_bind, Option.bind_some,
            oneBit_eq _ hp31, List.set_append_right _ _ le_rfl, Nat.sub_self, List.set_cons_zero,
            List.dropLast_concat]
          exact he
        · intro x hx
          rcases List.mem_append.mp hx with hx | hx
          · exact List.mem_cons_of_mem _ (hfreed x hx)
          · rw [List.mem_singleton.mp hx]
            exact List.mem_cons_self
        · intro x hx hin
          rcases List.mem_cons.mp hin with hx' | hin
          · exact hheld'.2 (hx' ▸ List.mem_map_of_mem (List.mem_append_left _ hx))
          · exact hkept x hx hin
        · have hi : map.getLsbD i = true → i < 64 := BitVec.lt_of_getLsbD
          rw [hbits, BitVec.getLsbD_and, BitVec.getLsbD_not, getLsbD_bit hp31]
          simp only [owned, List.map_append, List.mem_append, List.map_cons, List.map_nil,
            List.mem_singleton, Bool.and_eq_true, decide_eq_true_eq, Bool.not_eq_true',
            decide_eq_false_iff_not]
          tauto
      -- the UE has no such SSB
      · have hfind : entries.findIdx? (fun e => e.ssbIdx = ssb) = none := by
          refine List.findIdx?_eq_none_iff.mpr fun x hx => ?_
          rw [decide_eq_false_iff_not]
          exact fun he => hmem (he ▸ List.mem_map_of_mem hx)
        rw [List.filter_cons_of_neg (by simpa using hmem)] at hprefix
        obtain ⟨kept, freed, map', he, rfl, hfreed, hkept, hbits⟩ :=
          releasePreambles_spec ssbIdx entries map htail hheld h31 hprefix
        refine ⟨kept, freed, map', ?_, rfl, fun x hx => List.mem_cons_of_mem _ (hfreed x hx),
          fun x hx hin => ?_, hbits⟩
        · rw [hfind]
          exact he
        · rcases List.mem_cons.mp hin with rfl | hin
          · exact hmem (List.mem_map_of_mem (List.mem_append_left _ hx))
          · exact hkept x hx hin

end

/-! ## The owners -/

/-- The bitmap marks the preambles that are owned. Each has one owner, and is in the pool. -/
structure CfraCell.Consistent (cell : CfraCell) : Prop where
  bit_iff : ∀ p, cell.dedPreambleBitMap.getLsbD p = true ↔
    ∃ crnti entries, cell.cfraResource crnti = some entries ∧ p ∈ owned entries
  nodup : ∀ crnti entries, cell.cfraResource crnti = some entries → (owned entries).Nodup
  once : ∀ crnti crnti' entries entries' p, cell.cfraResource crnti = some entries →
    cell.cfraResource crnti' = some entries' → p ∈ owned entries → p ∈ owned entries' →
    crnti = crnti'
  range : ∀ crnti entries, cell.cfraResource crnti = some entries → ∀ p ∈ owned entries,
    cell.numCbPreamblePerSsb ≤ p ∧ p < cell.totalNumRaPreamble

/-- A release frees the preambles of the SSBs that it names, and nothing else. -/
structure CfraCell.Released (cell cell' : CfraCell) (crnti : ℕ) (ssbIdx : List ℕ) : Prop where
  kept : ∀ entries, cell.cfraResource crnti = some entries → ∃ entries',
    cell'.cfraResource crnti = some entries' ∧
    ∀ e, e ∈ entries' ↔ e ∈ entries ∧ e.ssbIdx ∉ ssbIdx
  others : ∀ crnti', crnti' ≠ crnti → cell'.cfraResource crnti' = cell.cfraResource crnti'
  bit_iff : ∀ p, cell'.dedPreambleBitMap.getLsbD p = true ↔
    cell.dedPreambleBitMap.getLsbD p = true ∧ ¬ ∃ entries, cell.cfraResource crnti = some entries ∧
      ∃ e ∈ entries, e.ssbIdx ∈ ssbIdx ∧ e.raPreambleIdx = p

/-- What also holds as long as no message breaks it: the preambles can be reached by a shift, and
no UE has two for one SSB. -/
structure CfraCell.Inv (cell : CfraCell) : Prop extends cell.Consistent where
  lt : ∀ crnti entries, cell.cfraResource crnti = some entries → ∀ p ∈ owned entries, p < 31
  nodup_ssb : ∀ crnti entries, cell.cfraResource crnti = some entries → (heldSsbs entries).Nodup

namespace CfraCell

variable {cell : CfraCell} {crnti : ℕ} {entries entries' : List SchCfraSsbResource}
  {map' : BitVec 64}

theorem setEntries_self (cell : CfraCell) (crnti : ℕ) (entries : List SchCfraSsbResource)
    (map : BitVec 64) : (cell.setEntries crnti entries map).cfraResource crnti = some entries :=
  Function.update_self ..

theorem setEntries_of_ne (cell : CfraCell) {crnti crnti' : ℕ} (h : crnti' ≠ crnti)
    (entries : List SchCfraSsbResource) (map : BitVec 64) :
    (cell.setEntries crnti entries map).cfraResource crnti' = cell.cfraResource crnti' :=
  Function.update_of_ne h ..

/-- The entries of one UE change, and the bitmap with them. -/
theorem Inv.setEntries (h : cell.Inv) (hue : cell.cfraResource crnti = some entries)
    (hnodup : (owned entries').Nodup) (hssb : (heldSsbs entries').Nodup)
    (hrange : ∀ p ∈ owned entries', cell.numCbPreamblePerSsb ≤ p ∧ p < cell.totalNumRaPreamble)
    (hlt : ∀ p ∈ owned entries', p < 31)
    (hfresh : ∀ p ∈ owned entries', p ∈ owned entries ∨ cell.dedPreambleBitMap.getLsbD p = false)
    (hbit : ∀ p, map'.getLsbD p = true ↔ p ∈ owned entries' ∨
      cell.dedPreambleBitMap.getLsbD p = true ∧ p ∉ owned entries) :
    (cell.setEntries crnti entries' map').Inv := by
  -- another UE owns none of the new preambles
  have hother : ∀ crnti' es p, crnti' ≠ crnti → cell.cfraResource crnti' = some es →
      p ∈ owned es → p ∉ owned entries' := by
    intro crnti' es p hne hes hp hp'
    rcases hfresh p hp' with hold | hclear
    · exact hne (h.once _ _ _ _ p hes hue hp hold)
    · rw [(h.bit_iff p).mpr ⟨crnti', es, hes, hp⟩] at hclear
      cases hclear
  have hcases : ∀ crnti' es, (cell.setEntries crnti entries' map').cfraResource crnti' = some es →
      (crnti' = crnti ∧ es = entries') ∨ (crnti' ≠ crnti ∧ cell.cfraResource crnti' = some es) := by
    intro crnti' es hes
    by_cases hc : crnti' = crnti
    · subst hc
      rw [setEntries_self] at hes
      exact .inl ⟨rfl, (Option.some.inj hes).symm⟩
    · rw [setEntries_of_ne cell hc] at hes
      exact .inr ⟨hc, hes⟩
  refine ⟨⟨fun p => ?_, fun crnti' es hes => ?_, fun c c' es es' p hes hes' hp hp' => ?_,
    fun crnti' es hes => ?_⟩, fun crnti' es hes => ?_, fun crnti' es hes => ?_⟩
  · show map'.getLsbD p = true ↔ _
    rw [hbit, h.bit_iff]
    constructor
    · rintro (hp | ⟨⟨c, es, hes, hp⟩, hout⟩)
      · exact ⟨crnti, entries', cell.setEntries_self .., hp⟩
      · have hne : c ≠ crnti := by
          rintro rfl
          exact hout (Option.some.inj (hes.symm.trans hue) ▸ hp)
        exact ⟨c, es, (cell.setEntries_of_ne hne ..).trans hes, hp⟩
    · rintro ⟨c, es, hes, hp⟩
      rcases hcases c es hes with ⟨rfl, rfl⟩ | ⟨hne, hes⟩
      · exact .inl hp
      · exact .inr ⟨⟨c, es, hes, hp⟩, fun hold => hne (h.once _ _ _ _ p hes hue hp hold)⟩
  · rcases hcases crnti' es hes with ⟨rfl, rfl⟩ | ⟨-, hes⟩
    · exact hnodup
    · exact h.nodup crnti' es hes
  · rcases hcases c es hes with ⟨hc, he⟩ | ⟨hne, hold⟩ <;>
      rcases hcases c' es' hes' with ⟨hc', he'⟩ | ⟨hne', hold'⟩
    · rw [hc, hc']
    · exact absurd (he ▸ hp) (hother c' es' p hne' hold' hp')
    · exact absurd (he' ▸ hp') (hother c es p hne hold hp)
    · exact h.once _ _ _ _ p hold hold' hp hp'
  · rcases hcases crnti' es hes with ⟨rfl, rfl⟩ | ⟨-, hes⟩
    · exact hrange
    · exact h.range crnti' es hes
  · rcases hcases crnti' es hes with ⟨rfl, rfl⟩ | ⟨-, hes⟩
    · exact hlt
    · exact h.lt crnti' es hes
  · rcases hcases crnti' es hes with ⟨rfl, rfl⟩ | ⟨-, hes⟩
    · exact hssb
    · exact h.nodup_ssb crnti' es hes

/-- A request of a UE that holds nothing, with enough free preambles below 31. -/
theorem Inv.rsrcReq (h : cell.Inv) (hue : cell.cfraResource crnti = some []) {ssbIdx : List ℕ}
    (hset : ssbIdx.Nodup) (hlen : ssbIdx.length ≤ numFree cell.dedPreambleBitMap
      cell.numCbPreamblePerSsb (min cell.totalNumRaPreamble 31 - cell.numCbPreamblePerSsb)) :
    ∃ entries map', assignPreambles cell.totalNumRaPreamble ssbIdx cell.numCbPreamblePerSsb
        cell.dedPreambleBitMap = some (entries, map') ∧ heldSsbs entries = ssbIdx ∧
      (cell.setEntries crnti entries map').Inv := by
  rcases Nat.lt_or_ge cell.numCbPreamblePerSsb (min cell.totalNumRaPreamble 31) with hlt | hge
  · obtain ⟨entries, map', he, hssb, hnodup, hrange, hbit⟩ := @assignPreambles_spec
      cell.totalNumRaPreamble ssbIdx cell.numCbPreamblePerSsb
      (min cell.totalNumRaPreamble 31 - cell.numCbPreamblePerSsb) cell.dedPreambleBitMap (by omega)
      (by omega) hlen
    refine ⟨entries, map', he, hssb, h.setEntries hue hnodup (hssb.symm ▸ hset) ?_ ?_ ?_ ?_⟩
    · intro p hp
      have := hrange p hp
      omega
    · intro p hp
      have := hrange p hp
      omega
    · exact fun p hp => .inr (hrange p hp).2.2
    · intro p
      rw [hbit]
      exact or_congr_right (and_iff_left List.not_mem_nil).symm
  -- there is nothing to give, and nothing is asked for
  · rw [Nat.sub_eq_zero_of_le hge] at hlen
    obtain rfl : ssbIdx = [] := List.eq_nil_of_length_eq_zero (Nat.le_zero.mp hlen)
    refine ⟨[], cell.dedPreambleBitMap, rfl, rfl, h.setEntries hue List.nodup_nil List.nodup_nil
      (fun _ hp => by cases hp) (fun _ hp => by cases hp) (fun _ hp => by cases hp) fun p => ?_⟩
    simp [owned]

/-- A release in the reverse order of the entries. -/
theorem Inv.rsrcRel (h : cell.Inv) (hue : cell.cfraResource crnti = some entries)
    {ssbIdx : List ℕ} (hset : ssbIdx.Nodup)
    (hfront : ssbIdx.filter (· ∈ heldSsbs entries) <+: (heldSsbs entries).reverse) :
    ∃ kept map', releasePreambles ssbIdx entries cell.dedPreambleBitMap = some (kept, map') ∧
      (cell.setEntries crnti kept map').Inv ∧
      cell.Released (cell.setEntries crnti kept map') crnti ssbIdx := by
  have hnodup := h.nodup crnti entries hue
  have hheld := h.nodup_ssb crnti entries hue
  obtain ⟨kept, freed, map', he, rfl, hfreed, hkept, hbit⟩ := releasePreambles_spec ssbIdx entries
    cell.dedPreambleBitMap hset hheld (h.lt crnti entries hue) hfront
  have howned : owned (kept ++ freed) = owned kept ++ owned freed := List.map_append ..
  have hsub : ∀ p ∈ owned kept, p ∈ owned (kept ++ freed) := fun p hp => by
    rw [howned]
    exact List.mem_append_left _ hp
  rw [howned, List.nodup_append] at hnodup
  refine ⟨kept, map', he, h.setEntries hue hnodup.1 ?_ ?_ ?_ ?_ ?_, ?_, ?_, ?_⟩
  · rw [heldSsbs, List.map_append, List.nodup_append] at hheld
    exact hheld.1
  · exact fun p hp => h.range crnti _ hue p (hsub p hp)
  · exact fun p hp => h.lt crnti _ hue p (hsub p hp)
  · exact fun p hp => .inl (hsub p hp)
  · intro p
    rw [hbit, howned, List.mem_append, not_or]
    constructor
    · rintro ⟨hset', hout⟩
      by_cases hp : p ∈ owned kept
      · exact .inl hp
      · exact .inr ⟨hset', hp, hout⟩
    · rintro (hp | ⟨hset', -, hout⟩)
      · exact ⟨(h.bit_iff p).mpr ⟨crnti, _, hue, hsub p hp⟩, fun hp' => hnodup.2.2 p hp p hp' rfl⟩
      · exact ⟨hset', hout⟩
  · intro es hes
    obtain rfl := Option.some.inj (hue.symm.trans hes)
    refine ⟨kept, cell.setEntries_self .., fun e => ⟨fun hmem => ?_, ?_⟩⟩
    · exact ⟨List.mem_append_left _ hmem, hkept e hmem⟩
    · rintro ⟨hmem, hout⟩
      rcases List.mem_append.mp hmem with hmem | hmem
      · exact hmem
      · exact absurd (hfreed e hmem) hout
  · exact fun crnti' hne => cell.setEntries_of_ne hne ..
  · intro p
    show map'.getLsbD p = true ↔ _
    rw [hbit]
    refine and_congr_right fun _ => not_congr ?_
    constructor
    · intro hp
      obtain ⟨e, hmem, rfl⟩ := List.mem_map.mp hp
      exact ⟨_, hue, e, List.mem_append_right _ hmem, hfreed e hmem, rfl⟩
    · rintro ⟨es, hes, e, hmem, hin, rfl⟩
      obtain rfl := Option.some.inj (hue.symm.trans hes)
      rcases List.mem_append.mp hmem with hmem | hmem
      · exact absurd hin (hkept e hmem)
      · exact List.mem_map_of_mem hmem

end CfraCell

/-! ## Sequences of messages -/

namespace RachMsg

def ssbIdx : RachMsg → List ℕ
  | .rsrcReq _ _ ssbIdx => ssbIdx
  | .rsrcRel _ _ ssbIdx => ssbIdx

/-- When a message does what it should: a request comes from a UE that holds nothing while there
are enough free preambles below 31, and a release names the SSBs that the UE holds in the reverse
order of the entries. -/
def Safe (cell : CfraCell) : RachMsg → Prop
  | .rsrcReq cellId crnti ssbIdx => cellId = cell.cellId →
      ∀ entries, cell.cfraResource crnti = some entries → entries = [] ∧
        ssbIdx.length ≤ numFree cell.dedPreambleBitMap cell.numCbPreamblePerSsb
          (min cell.totalNumRaPreamble 31 - cell.numCbPreamblePerSsb)
  | .rsrcRel cellId crnti ssbIdx => cellId = cell.cellId →
      ∀ entries, cell.cfraResource crnti = some entries →
        ssbIdx.filter (· ∈ heldSsbs entries) <+: (heldSsbs entries).reverse

/-- What a message should do: it is processed, the bitmap stays consistent with the owners, and a
release frees what it names. -/
def Meets (cell : CfraCell) (msg : RachMsg) : Prop :=
  ∃ cell' out, cell.step msg = .ok (cell', out) ∧ cell'.Consistent ∧
    ∀ cellId crnti ssbIdx, msg = .rsrcRel cellId crnti ssbIdx → cellId = cell.cellId →
      cell.Released cell' crnti ssbIdx

end RachMsg

namespace CfraCell

variable {cell : CfraCell} {msg : RachMsg}

/-- A release that finds no UE changes nothing. -/
theorem Released.refl {crnti : ℕ} {ssbIdx : List ℕ} (hnone : cell.cfraResource crnti = none) :
    cell.Released cell crnti ssbIdx := by
  refine ⟨fun es hes => ?_, fun _ _ => rfl, fun p => (and_iff_left ?_).symm⟩
  · rw [hnone] at hes
    cases hes
  · rintro ⟨es, hes, -⟩
    rw [hnone] at hes
    cases hes

theorem Inv.step (h : cell.Inv) (hset : msg.ssbIdx.Nodup) (hsafe : msg.Safe cell) :
    ∃ cell' out, cell.step msg = .ok (cell', out) ∧ cell'.Inv ∧
      ∀ cellId crnti ssbIdx, msg = .rsrcRel cellId crnti ssbIdx → cellId = cell.cellId →
        cell.Released cell' crnti ssbIdx := by
  cases msg with
  | rsrcReq cellId crnti ssbIdx =>
      rw [CfraCell.step, macSchRachRsrcReq]
      by_cases hcell : cellId = cell.cellId
      · rw [if_neg (not_not_intro hcell)]
        cases hue : cell.cfraResource crnti with
        | none => exact ⟨_, _, rfl, h, fun _ _ _ hmsg => by cases hmsg⟩
        | some entries =>
            obtain ⟨rfl, hlen⟩ := hsafe hcell entries hue
            obtain ⟨entries, map', he, -, hinv⟩ := @Inv.rsrcReq cell crnti h hue ssbIdx hset hlen
            simp only [he]
            exact ⟨_, _, rfl, hinv, fun _ _ _ hmsg => by cases hmsg⟩
      · rw [if_pos hcell]
        exact ⟨_, _, rfl, h, fun _ _ _ hmsg => by cases hmsg⟩
  | rsrcRel cellId crnti ssbIdx =>
      rw [CfraCell.step, macSchRachRsrcRel]
      by_cases hcell : cellId = cell.cellId
      · rw [if_neg (not_not_intro hcell)]
        cases hue : cell.cfraResource crnti with
        | none =>
            refine ⟨_, _, rfl, h, fun _ _ _ hmsg _ => ?_⟩
            cases hmsg
            exact .refl hue
        | some entries =>
            obtain ⟨kept, map', he, hinv, hrel⟩ :=
              @Inv.rsrcRel cell crnti entries h hue ssbIdx hset (hsafe hcell entries hue)
            simp only [he]
            refine ⟨_, _, rfl, hinv, fun _ _ _ hmsg _ => ?_⟩
            cases hmsg
            exact hrel
      · rw [if_pos hcell]
        refine ⟨_, _, rfl, h, fun _ _ _ hmsg hc => ?_⟩
        cases hmsg
        exact absurd hc hcell

/-- A cell where no preamble is dedicated yet. -/
structure Fresh (cell : CfraCell) : Prop where
  dedPreambleBitMap : cell.dedPreambleBitMap = 0
  cfraResource : ∀ crnti entries, cell.cfraResource crnti = some entries → entries = []

theorem Fresh.inv (h : cell.Fresh) : cell.Inv := by
  have hnone : ∀ {crnti entries p}, cell.cfraResource crnti = some entries →
      p ∉ owned entries := by
    intro crnti entries p hes hp
    rw [h.cfraResource crnti entries hes] at hp
    cases hp
  refine ⟨⟨fun p => iff_of_false ?_ ?_, fun crnti es hes => ?_, ?_, ?_⟩, ?_, fun crnti es hes => ?_⟩
  · rw [h.dedPreambleBitMap]
    simp
  · rintro ⟨crnti, entries, hes, hp⟩
    exact hnone hes hp
  · rw [h.cfraResource crnti es hes]
    exact List.nodup_nil
  · exact fun _ _ _ _ _ hes _ hp => absurd hp (hnone hes)
  · exact fun _ _ hes _ hp => absurd hp (hnone hes)
  · exact fun _ _ hes _ hp => absurd hp (hnone hes)
  · rw [h.cfraResource crnti es hes]
    exact List.nodup_nil

/-- **As long as the messages are safe, each preamble in use has one owner in the pool, and a
release frees what it names.** -/
theorem cfra_consistent {msgs : List RachMsg} (hfresh : cell.Fresh)
    (hset : ∀ msg ∈ msgs, msg.ssbIdx.Nodup)
    (hsafe : Machine.Along CfraCell.step (fun cell msg => msg.Safe cell) cell msgs) :
    cell.Consistent ∧ Machine.Along CfraCell.step (fun cell msg => msg.Meets cell) cell msgs := by
  refine ⟨hfresh.inv.toConsistent, Machine.along_imp (fun cell msg hinv hmsg => ?_) hfresh.inv
    (Machine.along_and hsafe (Machine.along_of_mem hset))⟩
  obtain ⟨cell', out, hstep, hinv', hrel⟩ := hinv.step hmsg.2 hmsg.1
  refine ⟨⟨cell', out, hstep, hinv'.toConsistent, hrel⟩, fun cell'' out' hstep' => ?_⟩
  obtain rfl : cell' = cell'' := congrArg Prod.fst (Except.ok.inj (hstep.symm.trans hstep'))
  exact hinv'

/-- A cell with eight dedicated preambles and one UE. -/
def exampleCfra : CfraCell where
  cellId := 1
  numCbPreamblePerSsb := 8
  totalNumRaPreamble := 16
  dedPreambleBitMap := 0
  cfraResource := fun crnti => if crnti = 100 then some [] else none

theorem exampleCfra_fresh : exampleCfra.Fresh := by
  refine ⟨rfl, fun crnti entries h => ?_⟩
  by_cases hc : crnti = 100
  · exact (Option.some.inj ((if_pos hc).symm.trans h)).symm
  · cases (if_neg hc).symm.trans h

/-- Preambles for two SSBs, and the release of one of them. -/
def reqAndRel (ssbIdx : ℕ) : List RachMsg := [.rsrcReq 1 100 [0, 1], .rsrcRel 1 100 [ssbIdx]]

/-- The check of `RachMsg.Safe` for the UE of the example. -/
def checkSafe (cell : CfraCell) : RachMsg → Bool
  | .rsrcReq cellId crnti ssbIdx => cellId == 1 && crnti == 100 &&
      ((cell.cfraResource 100).map fun entries => entries.isEmpty &&
        decide (ssbIdx.length ≤ numFree cell.dedPreambleBitMap cell.numCbPreamblePerSsb
          (min cell.totalNumRaPreamble 31 - cell.numCbPreamblePerSsb))) == some true
  | .rsrcRel cellId crnti ssbIdx => cellId == 1 && crnti == 100 &&
      ((cell.cfraResource 100).map fun entries =>
        decide (ssbIdx.filter (· ∈ heldSsbs entries) <+: (heldSsbs entries).reverse)) == some true

theorem safe_of_checkSafe {cell : CfraCell} {msg : RachMsg} (h : checkSafe cell msg = true) :
    msg.Safe cell := by
  cases msg with
  | rsrcReq cellId crnti ssbIdx =>
      rw [checkSafe, Bool.and_eq_true, Bool.and_eq_true, beq_iff_eq, beq_iff_eq] at h
      obtain ⟨⟨-, rfl⟩, hcheck⟩ := h
      intro _ entries hue
      rw [hue, beq_iff_eq, Option.map_some, Option.some.injEq, Bool.and_eq_true,
        decide_eq_true_iff] at hcheck
      exact ⟨List.isEmpty_iff.mp hcheck.1, hcheck.2⟩
  | rsrcRel cellId crnti ssbIdx =>
      rw [checkSafe, Bool.and_eq_true, Bool.and_eq_true, beq_iff_eq, beq_iff_eq] at h
      obtain ⟨⟨-, rfl⟩, hcheck⟩ := h
      intro _ entries hue
      rw [hue, beq_iff_eq, Option.map_some, Option.some.injEq, decide_eq_true_iff] at hcheck
      exact hcheck

/-- The SSB of the last entry can be released. -/
theorem reqAndRel_consistent : exampleCfra.Consistent ∧
    Machine.Along CfraCell.step (fun cell msg => msg.Meets cell) exampleCfra (reqAndRel 1) := by
  have hcheck : Machine.checkAlong CfraCell.step checkSafe exampleCfra (reqAndRel 1) = true := by
    decide +kernel
  exact cfra_consistent exampleCfra_fresh (by decide)
    (Machine.along_of_check (fun _ _ => safe_of_checkSafe) hcheck)

/-- **The release of the first of two SSBs takes the second one's entry away, and its preamble is
still marked.** -/
theorem reqAndRel_not_consistent : exampleCfra.Fresh ∧ (∀ msg ∈ reqAndRel 0, msg.ssbIdx.Nodup) ∧
    ¬ (exampleCfra.Consistent ∧
      Machine.Along CfraCell.step (fun cell msg => msg.Meets cell) exampleCfra (reqAndRel 0)) := by
  refine ⟨exampleCfra_fresh, by decide, ?_⟩
  rintro ⟨-, ⟨cell₁, out₁, h₁, -, -⟩, hrest⟩
  obtain ⟨⟨cell₂, out₂, h₂, hcons, -⟩, -⟩ := hrest cell₁ out₁ h₁
  have hcheck : (match exampleCfra.step (.rsrcReq 1 100 [0, 1]) with
      | .ok (cell, _) =>
        match cell.step (.rsrcRel 1 100 [0]) with
        | .ok (cell, _) => decide (cell.cfraResource 100 = some [⟨0, 0⟩] ∧
            cell.numCbPreamblePerSsb = 8)
        | .error _ => false
      | .error _ => false) = true := by decide +kernel
  simp only [h₁, h₂, decide_eq_true_iff] at hcheck
  -- the cleared entry is still one of the UE's
  have hrange := (hcons.range 100 _ hcheck.1 0 List.mem_cons_self).1
  rw [hcheck.2] at hrange
  omega

end CfraCell

end OaiCu.OduSch
