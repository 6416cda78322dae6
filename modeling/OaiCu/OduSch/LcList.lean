import Mathlib.Data.List.Nodup
import Mathlib.Data.List.Perm.Basic
import Mathlib.Order.Lattice
import Mathlib.Algebra.Ring.Int.Defs
import Mathlib.Algebra.Ring.Nat
import OaiCu.OduSch.TbSize

/-!
# The logical channels that are waiting (`sch_utils.c`, `sch_common.c`)

A UE has a list of the logical channels that need PRBs of its dedicated slice, and one of those of
the default slice. `prbAllocUsingRRMPolicy` serves a list from its head as long as there are PRBs;
a channel that was served goes to the tail.
-/

namespace OaiCu.OduSch

structure LcInfo where
  lcId : ℕ
  reqBO : ℕ
  allocBO : ℕ
  allocPRB : ℕ
deriving DecidableEq, Repr

/-- What a size depends on besides the PRBs. -/
structure TbCfg where
  mcsIdx : ℕ
  numSymbols : ℕ

/-! ## The lists -/

/-- The node of the channel gets a new request. -/
def setLc (lcId payloadSize : ℕ) : List LcInfo → Option (List LcInfo)
  | [] => none
  | n :: rest =>
    if n.lcId = lcId then some (⟨lcId, payloadSize, 0, 0⟩ :: rest)
    else (setLc lcId payloadSize rest).map (n :: ·)

/-- `updateLcListReqPRB`. A channel without a node gets a new one, if there is memory for it. -/
def updateLcListReqPRB (memory : Bool) (lcId payloadSize : ℕ) (lcLL : List LcInfo) :
    Option (List LcInfo) :=
  match setLc lcId payloadSize lcLL with
  | some lcLL => some lcLL
  | none => if memory then some (lcLL ++ [⟨lcId, payloadSize, 0, 0⟩]) else none

/-- `handleLcLList` for the action `DELETE`. -/
def deleteLc (lcId : ℕ) (lcLL : List LcInfo) : List LcInfo :=
  lcLL.eraseP fun n => n.lcId = lcId

/-! ## The estimate for one channel -/

/-- The bytes that `schCalcTbSizeFromNPrb` computes for a number of PRBs. -/
def tbBytes (mcs numSymbols numPrb : ℕ) : Option ℕ :=
  (schCalcTbSizeFromNPrb numPrb mcs numSymbols).map (· / 8)

/-- The loop of `calculateEstimateTBSize`. -/
def estimateSizes (size : ℕ → Option ℕ) (reqBO maxPRB : ℕ) : ℕ → ℕ → Option (ℕ × ℕ)
  | 0, estPrb => (size estPrb).map fun tbs => (tbs, estPrb + 1)
  | fuel + 1, estPrb => do
    let tbs ← size estPrb
    if tbs < reqBO ∧ estPrb + 1 < maxPRB then
      estimateSizes size reqBO maxPRB fuel (estPrb + 1)
    else return (tbs, estPrb + 1)

/-- `calculateEstimateTBSize`: the bytes that can be granted, and `estPrb`. -/
def estimateTbSize (mcs numSymbols reqBO maxPRB : ℕ) : Option (ℕ × ℕ) := do
  let (tbs, estPrb) ← estimateSizes (tbBytes mcs numSymbols) reqBO maxPRB maxPRB 1
  return (min tbs reqBO, estPrb)

/-! ## The loop over a list -/

/-- What a channel is left with, what it gets, and the PRBs for that. -/
structure LcTake where
  reqBO : ℕ
  allocBO : ℕ
  estPrb : ℕ

/-- The variables of `prbAllocUsingRRMPolicy`. The first channel that is served may need something
in addition. -/
structure LcLoop where
  lcLL : List LcInfo
  sharedPRB : ℕ
  remReservedPRB : ℕ
  first : Bool

namespace LcLoop

def exhausted (isDedicatedPRB : Bool) (s : LcLoop) : Bool :=
  if isDedicatedPRB then s.remReservedPRB = 0 && s.sharedPRB = 0 else s.sharedPRB = 0

/-- The PRBs are used up, the reserved ones first. -/
def usePrb (isDedicatedPRB : Bool) (estPrb : ℕ) (s : LcLoop) : LcLoop :=
  if isDedicatedPRB && estPrb ≤ s.remReservedPRB then
    { s with remReservedPRB := s.remReservedPRB - estPrb }
  else { s with
    sharedPRB := if s.sharedPRB ≤ estPrb - s.remReservedPRB then 0
      else s.sharedPRB - (estPrb - s.remReservedPRB)
    remReservedPRB := 0 }

/-- The head is served and put at the tail. -/
def serve (isDedicatedPRB : Bool) (n : LcInfo) (rest : List LcInfo) (t : LcTake) (s : LcLoop) :
    LcLoop :=
  { s.usePrb isDedicatedPRB t.estPrb with
    lcLL := rest ++ [⟨n.lcId, t.reqBO, t.allocBO, t.estPrb % 2 ^ 8⟩]
    first := false }

/-- The rounds of the loop. `take` says what a channel gets, where its estimate is defined. -/
def run (take : Bool → ℕ → ℕ → Option LcTake) (isDedicatedPRB : Bool) : ℕ → LcLoop → Option LcLoop
  | 0, s => some s
  | fuel + 1, s =>
    match s.lcLL with
    | [] => some s
    | n :: rest =>
      if n.reqBO = 0 ∧ n.allocBO = 0 then run take isDedicatedPRB fuel { s with lcLL := rest }
      else if n.allocBO ≠ 0 then some s
      else if s.exhausted isDedicatedPRB then some s
      else do
        let t ← take s.first n.reqBO (s.remReservedPRB + s.sharedPRB)
        run take isDedicatedPRB fuel (s.serve isDedicatedPRB n rest t)

end LcLoop

/-- `prbAllocUsingRRMPolicy`: the list, the shared PRBs that are left, and whether no channel was
served yet. A round drops a node or uses PRBs. -/
def prbAllocUsingRRMPolicy (take : Bool → ℕ → ℕ → Option LcTake) (isDedicatedPRB : Bool)
    (sharedPRB reservedPRB : ℕ) (first : Bool) (lcLL : List LcInfo) : Option LcLoop :=
  LcLoop.run take isDedicatedPRB (lcLL.length + (sharedPRB + reservedPRB) + 1)
    ⟨lcLL, sharedPRB, if isDedicatedPRB then reservedPRB else 0, first⟩

/-! ## The nodes of a list -/

namespace LcInfo

/-- What the channel needs, granted or not. -/
def demand (n : LcInfo) : ℕ := n.reqBO + n.allocBO

end LcInfo

section

variable {lcId payloadSize : ℕ} {lcLL lcLL' : List LcInfo} {n : LcInfo} {memory : Bool}

theorem setLc_spec : ∀ {lcLL lcLL' : List LcInfo}, setLc lcId payloadSize lcLL = some lcLL' →
    lcLL'.map (·.lcId) = lcLL.map (·.lcId) ∧ ⟨lcId, payloadSize, 0, 0⟩ ∈ lcLL' ∧
      (∀ n ∈ lcLL, n.lcId ≠ lcId → n ∈ lcLL') ∧ ((lcLL.map (·.lcId)).Nodup →
        ∀ n ∈ lcLL', n = ⟨lcId, payloadSize, 0, 0⟩ ∨ (n ∈ lcLL ∧ n.lcId ≠ lcId))
  | [], _, h => by cases h
  | m :: rest, _, h => by
      rw [setLc] at h
      split at h
      · rename_i he
        cases h
        refine ⟨by rw [List.map_cons, List.map_cons, he], List.mem_cons_self, fun n hn hid => ?_,
          fun hnd n hn => ?_⟩
        · rcases List.mem_cons.mp hn with rfl | hn
          · exact absurd he hid
          · exact List.mem_cons_of_mem _ hn
        rcases List.mem_cons.mp hn with rfl | hn
        · exact .inl rfl
        · refine .inr ⟨List.mem_cons_of_mem _ hn, fun hid => ?_⟩
          rw [List.map_cons, List.nodup_cons, he, ← hid] at hnd
          exact hnd.1 (List.mem_map_of_mem hn)
      · rename_i hne
        obtain ⟨rest', hrest, rfl⟩ := Option.map_eq_some_iff.mp h
        obtain ⟨hids, hmem, hkeep, hall⟩ := setLc_spec hrest
        refine ⟨by rw [List.map_cons, List.map_cons, hids], List.mem_cons_of_mem _ hmem,
          fun n hn hid => ?_, fun hnd n hn => ?_⟩
        · rcases List.mem_cons.mp hn with rfl | hn
          · exact List.mem_cons_self
          · exact List.mem_cons_of_mem _ (hkeep n hn hid)
        rcases List.mem_cons.mp hn with rfl | hn
        · exact .inr ⟨List.mem_cons_self, hne⟩
        · exact (hall (List.nodup_cons.mp hnd).2 n hn).imp_right fun ⟨hold, hid⟩ =>
            ⟨List.mem_cons_of_mem _ hold, hid⟩

theorem setLc_eq_none : ∀ {lcLL : List LcInfo}, setLc lcId payloadSize lcLL = none →
    lcId ∉ lcLL.map (·.lcId)
  | [], _ => List.not_mem_nil
  | m :: rest, h => by
      rw [setLc] at h
      split at h
      · cases h
      · rename_i hne
        rw [List.map_cons, List.mem_cons, not_or]
        exact ⟨fun he => hne he.symm, setLc_eq_none (Option.map_eq_none_iff.mp h)⟩

theorem updateLcListReqPRB_eq_none : updateLcListReqPRB memory lcId payloadSize lcLL = none ↔
    memory = false ∧ lcId ∉ lcLL.map (·.lcId) := by
  rw [updateLcListReqPRB]
  split
  · rename_i lcLL' hset
    obtain ⟨hids, hmem, -⟩ := setLc_spec hset
    exact iff_of_false (Option.some_ne_none _) fun h => h.2 (hids ▸ List.mem_map_of_mem hmem)
  · rename_i hset
    rw [and_iff_left (setLc_eq_none hset)]
    cases memory with
    | true => exact iff_of_false (Option.some_ne_none _) Bool.noConfusion
    | false => exact iff_of_true rfl rfl

/-- The channel has a new node, and the others keep theirs. -/
theorem updateLcListReqPRB_spec (h : updateLcListReqPRB memory lcId payloadSize lcLL = some lcLL')
    (hnd : (lcLL.map (·.lcId)).Nodup) : (lcLL'.map (·.lcId)).Nodup ∧
      ⟨lcId, payloadSize, 0, 0⟩ ∈ lcLL' ∧ (∀ n ∈ lcLL, n.lcId ≠ lcId → n ∈ lcLL') ∧
      ∀ n ∈ lcLL', n = ⟨lcId, payloadSize, 0, 0⟩ ∨ (n ∈ lcLL ∧ n.lcId ≠ lcId) := by
  rw [updateLcListReqPRB] at h
  split at h
  · rename_i hset
    obtain rfl := Option.some.inj h
    obtain ⟨hids, hmem, hkeep, hall⟩ := setLc_spec hset
    exact ⟨hids ▸ hnd, hmem, hkeep, hall hnd⟩
  · rename_i hset
    have hnew := setLc_eq_none hset
    split at h
    · obtain rfl := Option.some.inj h
      refine ⟨?_, by simp, fun n hn _ => List.mem_append_left _ hn, fun n hn => ?_⟩
      · rw [List.map_append, List.map_cons, List.map_nil]
        refine List.nodup_append.mpr ⟨hnd, List.nodup_singleton _, fun a ha b hb hab => hnew ?_⟩
        obtain rfl : a = lcId := hab.trans (List.mem_singleton.mp hb)
        exact ha
      · rcases List.mem_append.mp hn with hn | hn
        · exact .inr ⟨hn, fun hid => hnew (hid ▸ List.mem_map_of_mem hn)⟩
        · exact .inl (List.mem_singleton.mp hn)
    · cases h

end

/-! ## What the estimate gives -/

/-- The loop stops at the first size that is enough, or at the last number of PRBs. -/
theorem estimateSizes_spec {size : ℕ → Option ℕ} {reqBO maxPRB tbs estPrb' : ℕ} :
    ∀ fuel estPrb, maxPRB ≤ estPrb + fuel →
      estimateSizes size reqBO maxPRB fuel estPrb = some (tbs, estPrb') →
      ∃ k, estPrb ≤ k ∧ estPrb' = k + 1 ∧ k ≤ max estPrb (maxPRB - 1) ∧ size k = some tbs ∧
        (reqBO ≤ tbs ∨ maxPRB ≤ k + 1) ∧ ∃ t, size estPrb = some t
  | 0, estPrb, hfuel, h => by
      rw [estimateSizes, Option.map_eq_some_iff] at h
      obtain ⟨t, ht, heq⟩ := h
      obtain ⟨rfl, rfl⟩ := Prod.mk.inj heq
      exact ⟨estPrb, le_rfl, rfl, le_max_left _ _, ht, .inr (by omega), t, ht⟩
  | fuel + 1, estPrb, hfuel, h => by
      rw [estimateSizes] at h
      obtain ⟨t, ht, h⟩ := Option.bind_eq_some_iff.mp h
      split at h
      · rename_i hgo
        obtain ⟨k, hk, he, hle, hsize, hstop, -⟩ := estimateSizes_spec fuel (estPrb + 1) (by omega) h
        exact ⟨k, by omega, he, by omega, hsize, hstop, t, ht⟩
      · rename_i hstop
        obtain ⟨rfl, rfl⟩ := Prod.mk.inj (Option.some.inj h)
        exact ⟨estPrb, le_rfl, rfl, le_max_left _ _, ht, by omega, t, ht⟩

/-- An estimate is at most what is asked for, and one PRB is added to those it was computed for. -/
theorem estimateTbSize_spec {mcs numSymbols reqBO maxPRB est estPrb : ℕ}
    (h : estimateTbSize mcs numSymbols reqBO maxPRB = some (est, estPrb)) :
    est ≤ reqBO ∧ 2 ≤ estPrb ∧ estPrb ≤ max 2 maxPRB := by
  obtain ⟨⟨tbs, e⟩, hloop, heq⟩ := Option.bind_eq_some_iff.mp h
  obtain ⟨rfl, rfl⟩ := Prod.mk.inj (Option.some.inj heq)
  obtain ⟨k, hk, he, hle, -⟩ := estimateSizes_spec maxPRB 1 (by omega) hloop
  exact ⟨min_le_right _ _, by omega, by omega⟩

/-! ## The end of the loop -/

namespace LcLoop

variable {take : Bool → ℕ → ℕ → Option LcTake} {isDedicatedPRB : Bool} {s s' : LcLoop}

/-- Nothing is left to do: no channel is waiting at the head, or there are no PRBs. -/
def Done (isDedicatedPRB : Bool) (s : LcLoop) : Prop :=
  s.exhausted isDedicatedPRB = true ∨ ∀ n ∈ s.lcLL.head?, n.allocBO ≠ 0

theorem not_exhausted_iff (lcLL : List LcInfo) (sharedPRB reservedPRB : ℕ) (first : Bool) :
    exhausted isDedicatedPRB
      ⟨lcLL, sharedPRB, if isDedicatedPRB then reservedPRB else 0, first⟩ = true ↔
      ¬(sharedPRB ≠ 0 ∨ (isDedicatedPRB = true ∧ reservedPRB ≠ 0)) := by
  cases isDedicatedPRB with
  | false => simp [exhausted]
  | true => simp [exhausted, and_comm]

/-- The PRBs that are left. -/
def freePrb (s : LcLoop) : ℕ := s.remReservedPRB + s.sharedPRB

theorem freePrb_usePrb_le (isDedicatedPRB : Bool) (estPrb : ℕ) (s : LcLoop) :
    (s.usePrb isDedicatedPRB estPrb).freePrb ≤ s.freePrb := by
  rw [usePrb, freePrb, freePrb]
  split
  · dsimp only
    omega
  · dsimp only
    split <;> omega

/-- A round of the loop: it ends, or the head needs nothing and is dropped, or it is served. -/
theorem run_succ {fuel : ℕ} (h : run take isDedicatedPRB (fuel + 1) s = some s') :
    (s.Done isDedicatedPRB ∧ (∀ n ∈ s.lcLL.head?, n.demand ≠ 0) ∧ s' = s) ∨
    (∃ n rest, s.lcLL = n :: rest ∧ n.demand = 0 ∧
      run take isDedicatedPRB fuel { s with lcLL := rest } = some s') ∨
    (∃ n rest t, s.lcLL = n :: rest ∧ 0 < n.reqBO ∧ n.allocBO = 0 ∧
      s.exhausted isDedicatedPRB = false ∧
      take s.first n.reqBO (s.remReservedPRB + s.sharedPRB) = some t ∧
      run take isDedicatedPRB fuel (s.serve isDedicatedPRB n rest t) = some s') := by
  rw [run] at h
  split at h
  · rename_i hnil
    cases h
    have hhead : ∀ n, n ∉ s.lcLL.head? := fun n hn => by
      rw [hnil] at hn
      cases hn
    exact .inl ⟨.inr fun n hn => absurd hn (hhead n), fun n hn => absurd hn (hhead n), rfl⟩
  · rename_i n rest hcons
    have hhead : ∀ n' ∈ s.lcLL.head?, n' = n := fun n' hn' => by
      rw [hcons] at hn'
      cases hn'
      rfl
    split at h
    · rename_i hzero
      refine .inr (.inl ⟨n, rest, hcons, ?_, h⟩)
      rw [LcInfo.demand, hzero.1, hzero.2]
    · rename_i hne
      have hdemand : ∀ n' ∈ s.lcLL.head?, n'.demand ≠ 0 := fun n' hn' h => by
        rw [hhead n' hn'] at h
        exact hne (Nat.add_eq_zero_iff.mp h)
      split at h
      · rename_i halloc
        cases h
        exact .inl ⟨.inr fun n' hn' => hhead n' hn' ▸ halloc, hdemand, rfl⟩
      · rename_i halloc
        rw [not_not] at halloc
        split at h
        · rename_i hex
          cases h
          exact .inl ⟨.inl hex, hdemand, rfl⟩
        · rename_i hex
          obtain ⟨t, ht, h⟩ := Option.bind_eq_some_iff.mp h
          exact .inr (.inr ⟨n, rest, t, hcons, Nat.pos_of_ne_zero fun hz => hne ⟨hz, halloc⟩,
            halloc, Bool.eq_false_iff.mpr hex, ht, h⟩)

end LcLoop

end OaiCu.OduSch
