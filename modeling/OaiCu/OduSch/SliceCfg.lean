import Mathlib.Data.List.Nodup
import Mathlib.Algebra.Ring.Int.Defs
import Mathlib.Algebra.Ring.Nat

/-!
# O-DU scheduler: the slices that are configured (`sch.c`)

A request is answered for each of its slices, and the slices that are answered with `RSP_OK` are to be
stored. A later request changes the ratios of stored slices. Memory is always there; a NULL pointer
that is read makes an operation undefined.
-/

namespace OaiCu.OduSch

/-- `Snssai`. -/
structure Snssai where
  sst : BitVec 8
  sd : Vector (BitVec 8) 3
deriving DecidableEq

/-- `SchRrmPolicyRatio`. -/
structure SchRrmPolicyRatio where
  policyMaxRatio : BitVec 8
  policyMinRatio : BitVec 8
  policyDedicatedRatio : BitVec 8
deriving DecidableEq

/-- `SchRrmPolicyOfSlice`. The ratios are allocated with it. -/
structure SchRrmPolicyOfSlice where
  snssai : Snssai
  rrmPolicyRatioInfo : SchRrmPolicyRatio
deriving DecidableEq

/-- `SchSliceCfgReq`, of `numOfConfiguredSlice` slices. -/
structure SchSliceCfgReq where
  listOfConfirguration : List SchRrmPolicyOfSlice
  numOfConfiguredSlice_lt : listOfConfirguration.length < 2 ^ 8

/-- `SchMacRsp`. -/
inductive SchMacRsp
  | ok
  | nok
deriving DecidableEq

/-- `RspCause`. -/
inductive RspCause
  | sliceFound
  | sliceNotFound
deriving DecidableEq

/-- `SliceRsp`. -/
structure SliceRsp where
  snssai : Snssai
  rsp : SchMacRsp
  cause : RspCause
deriving DecidableEq

/-- `SchSliceCfg`: an array of `numOfSliceConfigured` pointers. It is NULL without a slice. -/
abbrev SchSliceCfg := List (Option SchRrmPolicyOfSlice)

/-! ## `fillSliceCfgRsp` -/

/-- The answer for a slice. -/
def sliceRsp (snssai : Snssai) (sliceFound : Bool) : SliceRsp :=
  if sliceFound then ⟨snssai, .ok, .sliceFound⟩ else ⟨snssai, .nok, .sliceNotFound⟩

/-- The search in what is stored. -/
def findStored (snssai : Snssai) : SchSliceCfg → Option Bool
  | [] => some false
  | none :: _ => none
  | some p :: storedSliceCfg =>
    if snssai = p.snssai then some true else findStored snssai storedSliceCfg

/-- `fillSliceCfgRsp` with the search for a slice: the answers, and how many are `RSP_OK`. -/
def fillSliceCfgRsp (find : Snssai → Option Bool) :
    List SchRrmPolicyOfSlice → Option (List SliceRsp × ℕ)
  | [] => some ([], 0)
  | p :: cfgReq => do
    let sliceFound ← find p.snssai
    let (cfgRsp, count) ← fillSliceCfgRsp find cfgReq
    return (sliceRsp p.snssai sliceFound :: cfgRsp, if sliceFound then count + 1 else count)

/-! ## `addSliceCfgInSchDb` -/

/-- The loop with `n` passes left. -/
def addSliceLoop (cfgReq : List SchRrmPolicyOfSlice) (cfgRsp : List SliceRsp) :
    ℕ → ℕ → ℕ → SchSliceCfg → Option SchSliceCfg
  | 0, _, _, storeSliceCfg => some storeSliceCfg
  | n + 1, cfgIdx, sliceIdx, storeSliceCfg => do
    if (← cfgRsp[cfgIdx]?).rsp = .ok then
      let p ← cfgReq[sliceIdx]?
      addSliceLoop cfgReq cfgRsp n (cfgIdx + 1) (sliceIdx + 1)
        (storeSliceCfg.set sliceIdx (some p))
    else addSliceLoop cfgReq cfgRsp n (cfgIdx + 1) sliceIdx storeSliceCfg

/-- `addSliceCfgInSchDb`. -/
def addSliceCfgInSchDb (storeSliceCfg : SchSliceCfg) (cfgReq : List SchRrmPolicyOfSlice)
    (cfgRsp : List SliceRsp) (count : ℕ) : Option SchSliceCfg :=
  if count ≠ 0 then addSliceLoop cfgReq cfgRsp count 0 0 (List.replicate count none)
  else some storeSliceCfg

/-- `MacSchSliceCfgReq`, with what the cell supports: what is stored then, and the answers. -/
def macSchSliceCfgReq (snssai : List Snssai) (sliceCfg : SchSliceCfg)
    (schSliceCfgReq : SchSliceCfgReq) : Option (SchSliceCfg × List SliceRsp) := do
  let (sliceCfgRsp, count) ← fillSliceCfgRsp (fun s => some (decide (s ∈ snssai)))
    schSliceCfgReq.listOfConfirguration
  let sliceCfg ← addSliceCfgInSchDb sliceCfg schSliceCfgReq.listOfConfirguration sliceCfgRsp count
  return (sliceCfg, sliceCfgRsp)

/-! ## `modifySliceCfgInSchDb` -/

/-- The loop over what is stored, for a slice of the request. -/
def modifyStored (p : SchRrmPolicyOfSlice) : SchSliceCfg → Option SchSliceCfg
  | [] => some []
  | none :: _ => none
  | some q :: storeSliceCfg =>
    if q.snssai = p.snssai then
      some (some { q with rrmPolicyRatioInfo := p.rrmPolicyRatioInfo } :: storeSliceCfg)
    else do
      let storeSliceCfg ← modifyStored p storeSliceCfg
      return some q :: storeSliceCfg

/-- The loop over the request. -/
def modifySliceLoop : List SchRrmPolicyOfSlice → List SliceRsp → SchSliceCfg → Option SchSliceCfg
  | [], _, storeSliceCfg => some storeSliceCfg
  | _ :: _, [], _ => none
  | p :: cfgReq, r :: cfgRsp, storeSliceCfg =>
    (if r.rsp = .ok then modifyStored p storeSliceCfg else some storeSliceCfg).bind
      fun storeSliceCfg => modifySliceLoop cfgReq cfgRsp storeSliceCfg

/-- `modifySliceCfgInSchDb`: whether it succeeds, and what is stored then. -/
def modifySliceCfgInSchDb (storeSliceCfg : SchSliceCfg) (cfgReq : List SchRrmPolicyOfSlice)
    (cfgRsp : List SliceRsp) (count : ℕ) : Option (Bool × SchSliceCfg) :=
  if count ≠ 0 then
    if storeSliceCfg = [] then some (false, storeSliceCfg)
    else do
      let storeSliceCfg ← modifySliceLoop cfgReq cfgRsp storeSliceCfg
      return (true, storeSliceCfg)
  else some (true, storeSliceCfg)

/-- `MacSchSliceReCfgReq`: what is stored then, and the answers if they are sent. -/
def macSchSliceReCfgReq (sliceCfg : SchSliceCfg) (schSliceReCfgReq : SchSliceCfgReq) :
    Option (SchSliceCfg × Option (List SliceRsp)) := do
  let (schSliceReCfgRsp, count) ← fillSliceCfgRsp (fun s => findStored s sliceCfg)
    schSliceReCfgReq.listOfConfirguration
  let (ret, sliceCfg) ← modifySliceCfgInSchDb sliceCfg schSliceReCfgReq.listOfConfirguration
    schSliceReCfgRsp count
  return (sliceCfg, if ret then some schSliceReCfgRsp else none)

/-!
## Which slices are stored, and what a later request changes

The slices are copied from the front of the request, and the loop ends after as many answers as there
are accepted slices. What is stored is right exactly if the accepted slices come first. A later
request changes the first of the stored slices with its name.
-/

variable {supported : List Snssai} {cfgReq : List SchRrmPolicyOfSlice}

/-! ## The answers -/

/-- The slices that are answered with `RSP_OK`. -/
def answeredOk (cfgReq : List SchRrmPolicyOfSlice) (cfgRsp : List SliceRsp) :
    List SchRrmPolicyOfSlice :=
  ((cfgReq.zip cfgRsp).filter fun x => x.2.rsp = .ok).map Prod.fst

/-- The search of all answers is defined. -/
theorem fillSliceCfgRsp_eq {find : Snssai → Option Bool} {found : Snssai → Bool}
    (h : ∀ p ∈ cfgReq, find p.snssai = some (found p.snssai)) :
    fillSliceCfgRsp find cfgReq = some (cfgReq.map fun p => sliceRsp p.snssai (found p.snssai),
      cfgReq.countP fun p => found p.snssai) := by
  induction cfgReq with
  | nil => rfl
  | cons p cfgReq ih =>
      rw [fillSliceCfgRsp, h p List.mem_cons_self, ih fun q hq => h q (List.mem_cons_of_mem p hq),
        List.countP_cons]
      simp only [Option.bind_eq_bind, Option.bind_some, List.map_cons]
      split
      · rfl
      · rfl

@[simp] theorem sliceRsp_ok_iff {snssai : Snssai} {sliceFound : Bool} :
    (sliceRsp snssai sliceFound).rsp = .ok ↔ sliceFound = true := by
  cases sliceFound <;> simp [sliceRsp]

theorem answeredOk_map (found : Snssai → Bool) :
    answeredOk cfgReq (cfgReq.map fun p => sliceRsp p.snssai (found p.snssai)) =
      cfgReq.filter fun p => found p.snssai := by
  induction cfgReq with
  | nil => rfl
  | cons p cfgReq ih =>
      rw [answeredOk] at ih ⊢
      rw [List.map_cons, List.zip_cons_cons, List.filter_cons, List.filter_cons]
      simp only [sliceRsp_ok_iff, decide_eq_true_eq]
      split
      · rw [List.map_cons, ih]
      · exact ih

/-! ## What is stored -/

/-- After a pass the slices at the front of the request are stored, as many as were accepted. -/
theorem addSliceLoop_eq {cfgRsp : List SliceRsp} {n cfgIdx sliceIdx rest : ℕ}
    (hlength : cfgRsp.length ≤ cfgReq.length) (hcfg : cfgIdx + n ≤ cfgRsp.length)
    (hslice : sliceIdx ≤ cfgIdx) (hrest : n ≤ rest) :
    ∃ m ≤ n, (m = n ↔ ∀ r ∈ (cfgRsp.drop cfgIdx).take n, r.rsp = .ok) ∧
      addSliceLoop cfgReq cfgRsp n cfgIdx sliceIdx
          ((cfgReq.take sliceIdx).map some ++ List.replicate rest none) =
        some ((cfgReq.take (sliceIdx + m)).map some ++ List.replicate (rest - m) none) := by
  induction n generalizing cfgIdx sliceIdx rest with
  | zero => exact ⟨0, Nat.le_refl 0, by simp, rfl⟩
  | succ n ih =>
      have hlt : cfgIdx < cfgRsp.length := by omega
      have hlt' : sliceIdx < cfgReq.length := by omega
      rw [addSliceLoop, List.getElem?_eq_getElem hlt, Option.bind_eq_bind, Option.bind_some,
        List.drop_eq_getElem_cons hlt, List.take_succ_cons, List.forall_mem_cons]
      by_cases hok : cfgRsp[cfgIdx].rsp = .ok
      · obtain ⟨m, hm, hall, he⟩ := @ih (cfgIdx + 1) (sliceIdx + 1) (rest - 1) (by omega) (by omega)
          (by omega)
        refine ⟨m + 1, by omega, by rw [← hall]; simp [hok], ?_⟩
        have hset : ((cfgReq.take sliceIdx).map some ++ List.replicate rest none).set sliceIdx
            (some cfgReq[sliceIdx]) =
            (cfgReq.take (sliceIdx + 1)).map some ++ List.replicate (rest - 1) none := by
          obtain ⟨rest, rfl⟩ : ∃ k, rest = k + 1 := ⟨rest - 1, by omega⟩
          have hfront : ((cfgReq.take sliceIdx).map some).length = sliceIdx := by
            rw [List.length_map, List.length_take]
            omega
          rw [List.set_append_right _ _ (Nat.le_of_eq hfront), hfront, Nat.sub_self, List.replicate_succ,
            List.set_cons_zero, List.take_succ_eq_append_getElem hlt', List.map_append,
            List.append_assoc]
          rfl
        rw [if_pos hok, List.getElem?_eq_getElem hlt', Option.bind_eq_bind, Option.bind_some, hset, he,
          show sliceIdx + 1 + m = sliceIdx + (m + 1) by omega,
          show rest - 1 - m = rest - (m + 1) by omega]
      · obtain ⟨m, hm, -, he⟩ := @ih (cfgIdx + 1) sliceIdx rest (by omega) (by omega) (by omega)
        refine ⟨m, by omega, ⟨fun h => by omega, fun h => absurd h.1 hok⟩, ?_⟩
        rw [if_neg hok, he]

/-- The accepted slices come first. -/
def AcceptedFirst (supported : List Snssai) (cfgReq : List SchRrmPolicyOfSlice) : Prop :=
  ∃ l l', cfgReq = l ++ l' ∧ (∀ p ∈ l, p.snssai ∈ supported) ∧ ∀ p ∈ l', p.snssai ∉ supported

/-- The accepted slices. -/
def accepted (supported : List Snssai) (cfgReq : List SchRrmPolicyOfSlice) :
    List SchRrmPolicyOfSlice :=
  cfgReq.filter fun p => p.snssai ∈ supported

theorem acceptedFirst_iff : AcceptedFirst supported cfgReq ↔
    ∀ p ∈ cfgReq.take (accepted supported cfgReq).length, p.snssai ∈ supported := by
  constructor
  · rintro ⟨l, l', rfl, hl, hl'⟩
    have he : accepted supported (l ++ l') = l := by
      rw [accepted, List.filter_append, List.filter_eq_self.2 fun p hp => decide_eq_true (hl p hp),
        List.filter_eq_nil_iff.2 fun p hp => by simpa using hl' p hp, List.append_nil]
    rw [he, List.take_left]
    exact hl
  · intro h
    refine ⟨_, _, (List.take_append_drop (accepted supported cfgReq).length cfgReq).symm, h, ?_⟩
    have hle : (accepted supported cfgReq).length ≤ cfgReq.length := List.length_filter_le _ _
    have hsum := congrArg List.length (congrArg (accepted supported)
      (List.take_append_drop (accepted supported cfgReq).length cfgReq))
    have hfront := congrArg List.length
      (List.filter_eq_self.2 fun p hp => decide_eq_true (h p hp))
    rw [accepted, List.filter_append, List.length_append, hfront, List.length_take,
      Nat.min_eq_left hle] at hsum
    have hnil : ((cfgReq.drop (accepted supported cfgReq).length).filter
        fun p => p.snssai ∈ supported) = [] := by
      rw [← List.length_eq_zero_iff]
      rw [accepted] at hsum ⊢
      omega
    simpa [List.filter_eq_nil_iff] using hnil

/-- What is stored for the answers of the cell. -/
theorem addSliceCfgInSchDb_eq (sliceCfg : SchSliceCfg) :
    ∃ stored, addSliceCfgInSchDb sliceCfg cfgReq
        (cfgReq.map fun p => sliceRsp p.snssai (p.snssai ∈ supported))
        (cfgReq.countP fun p => p.snssai ∈ supported) = some stored ∧
      (stored = (accepted supported cfgReq).map some ↔
        AcceptedFirst supported cfgReq ∧ (accepted supported cfgReq = [] → sliceCfg = [])) := by
  have hcount : (cfgReq.countP fun p => p.snssai ∈ supported) =
      (accepted supported cfgReq).length := List.countP_eq_length_filter
  have hle : (accepted supported cfgReq).length ≤ cfgReq.length := List.length_filter_le _ _
  rw [addSliceCfgInSchDb, hcount]
  by_cases hnil : accepted supported cfgReq = []
  · have hfirst : AcceptedFirst supported cfgReq := acceptedFirst_iff.2 (by simp [hnil])
    refine ⟨sliceCfg, by rw [hnil]; rfl, ?_⟩
    rw [and_iff_right hfirst, hnil]
    exact ⟨fun h _ => h, fun h => h rfl⟩
  · rw [if_pos (mt List.length_eq_zero_iff.1 hnil), and_iff_left fun h => absurd h hnil,
      acceptedFirst_iff]
    generalize hk : (accepted supported cfgReq).length = k at hle
    obtain ⟨m, hm, hall, he⟩ := @addSliceLoop_eq cfgReq
      (cfgReq.map fun p => sliceRsp p.snssai (p.snssai ∈ supported)) k 0 0 k
      (Nat.le_of_eq (List.length_map _)) (by rw [List.length_map]; omega) (Nat.le_refl 0) (Nat.le_refl k)
    refine ⟨_, he, ?_⟩
    have hok : (∀ p ∈ cfgReq.take k, p.snssai ∈ supported) ↔ m = k := by
      rw [hall, List.drop_zero, ← List.map_take, List.forall_mem_map]
      simp only [sliceRsp_ok_iff, decide_eq_true_eq]
    rw [hok, Nat.zero_add]
    constructor
    · intro h
      have hnone : none ∉ (cfgReq.take m).map some ++
          List.replicate (k - m) (none : Option SchRrmPolicyOfSlice) := by
        rw [h]
        simp
      have hrest : k - m = 0 := by
        by_contra hne
        exact hnone (List.mem_append_right _ (List.mem_replicate.2 ⟨hne, rfl⟩))
      omega
    · rintro rfl
      have hfront := List.filter_eq_self.2 fun p hp => decide_eq_true ((hok.2 rfl) p hp)
      have hlist : (cfgReq.take m).filter (fun p => p.snssai ∈ supported) ++
          (cfgReq.drop m).filter (fun p => p.snssai ∈ supported) = accepted supported cfgReq := by
        rw [← List.filter_append, List.take_append_drop, accepted]
      have htail : (cfgReq.drop m).filter (fun p => p.snssai ∈ supported) = [] := by
        have hsum := congrArg List.length hlist
        rw [List.length_append, hfront, List.length_take, Nat.min_eq_left hle, hk] at hsum
        rw [← List.length_eq_zero_iff]
        omega
      rw [← hlist, hfront, htail, List.append_nil, Nat.sub_self, List.replicate_zero,
        List.append_nil]

/-! ## Later requests -/

/-- The ratios that are requested for a slice. If it is named more than once, the last ones count. -/
def requested (cfgReq : List SchRrmPolicyOfSlice) (snssai : Snssai) : Option SchRrmPolicyRatio :=
  (cfgReq.reverse.find? fun p => p.snssai = snssai).map SchRrmPolicyOfSlice.rrmPolicyRatioInfo

/-- The slice with the ratios that are requested for it. -/
def withRequested (cfgReq : List SchRrmPolicyOfSlice) (q : SchRrmPolicyOfSlice) :
    SchRrmPolicyOfSlice :=
  { q with rrmPolicyRatioInfo := (requested cfgReq q.snssai).getD q.rrmPolicyRatioInfo }

@[simp] theorem withRequested_snssai (q : SchRrmPolicyOfSlice) :
    (withRequested cfgReq q).snssai = q.snssai := rfl

/-- The slice with the ratios of another one of its name. -/
def withRatio (p q : SchRrmPolicyOfSlice) : SchRrmPolicyOfSlice :=
  if q.snssai = p.snssai then { q with rrmPolicyRatioInfo := p.rrmPolicyRatioInfo } else q

@[simp] theorem withRatio_snssai (p q : SchRrmPolicyOfSlice) :
    (withRatio p q).snssai = q.snssai := by
  rw [withRatio]
  split <;> rfl

theorem withRequested_cons (p : SchRrmPolicyOfSlice) :
    withRequested (p :: cfgReq) = withRequested cfgReq ∘ withRatio p := by
  funext q
  have hreq : requested (p :: cfgReq) q.snssai = (requested cfgReq q.snssai).or
      (if q.snssai = p.snssai then some p.rrmPolicyRatioInfo else none) := by
    rw [requested, requested, List.reverse_cons, List.find?_append]
    cases cfgReq.reverse.find? fun p => p.snssai = q.snssai with
    | some r => rfl
    | none =>
        rw [Option.none_or, Option.map_none, Option.none_or, List.find?_singleton]
        by_cases h : q.snssai = p.snssai
        · simp [h]
        · simp [h, Ne.symm h]
  rw [withRequested, hreq, Function.comp_apply, withRatio]
  split
  · rw [withRequested]
    cases requested cfgReq q.snssai <;> rfl
  · rw [withRequested, Option.or_none]

/-- A name that is not there changes nothing. -/
theorem map_withRatio_of_notMem {p : SchRrmPolicyOfSlice} {l : List SchRrmPolicyOfSlice}
    (h : p.snssai ∉ l.map SchRrmPolicyOfSlice.snssai) : l.map (withRatio p) = l := by
  refine (List.map_congr_left fun q hq => ?_).trans (List.map_id l)
  rw [withRatio, if_neg fun he => h (List.mem_map.2 ⟨q, hq, he⟩)]
  rfl

/-- The slice is stored. -/
def storedIn (l : List SchRrmPolicyOfSlice) (snssai : Snssai) : Bool :=
  l.any fun q => snssai = q.snssai

theorem storedIn_iff {l : List SchRrmPolicyOfSlice} {snssai : Snssai} :
    storedIn l snssai = true ↔ snssai ∈ l.map SchRrmPolicyOfSlice.snssai := by
  simp only [storedIn, List.any_eq_true, List.mem_map, decide_eq_true_eq, eq_comm (a := snssai)]

theorem findStored_map (snssai : Snssai) (l : List SchRrmPolicyOfSlice) :
    findStored snssai (l.map some) = some (storedIn l snssai) := by
  induction l with
  | nil => rfl
  | cons q l ih =>
      rw [List.map_cons, findStored, ih, storedIn, storedIn, List.any_cons]
      split
      · rename_i h
        simp [h]
      · rename_i h
        simp [h]

/-- A later request is answered from what is stored. -/
theorem macSchSliceReCfgReq_eq (l : List SchRrmPolicyOfSlice) (req : SchSliceCfgReq) :
    macSchSliceReCfgReq (l.map some) req =
      (modifySliceCfgInSchDb (l.map some) req.listOfConfirguration
        (req.listOfConfirguration.map fun p => sliceRsp p.snssai (storedIn l p.snssai))
        (req.listOfConfirguration.countP fun p => storedIn l p.snssai)).map fun x =>
          (x.2, if x.1 then some (req.listOfConfirguration.map fun p =>
            sliceRsp p.snssai (storedIn l p.snssai)) else none) := by
  rw [macSchSliceReCfgReq, @fillSliceCfgRsp_eq _ _ (storedIn l) fun p _ =>
    findStored_map p.snssai l, Option.bind_eq_bind, Option.bind_some, Option.map_eq_bind]
  rfl

theorem modifyStored_map (p : SchRrmPolicyOfSlice) {l : List SchRrmPolicyOfSlice}
    (hn : (l.map SchRrmPolicyOfSlice.snssai).Nodup) :
    modifyStored p (l.map some) = some ((l.map (withRatio p)).map some) := by
  induction l with
  | nil => rfl
  | cons q l ih =>
      rw [List.map_cons, List.nodup_cons] at hn
      rw [List.map_cons, modifyStored, ih hn.2, List.map_cons, List.map_cons, withRatio]
      split
      · rename_i he
        rw [map_withRatio_of_notMem (he ▸ hn.1)]
      · rfl

/-- The names of the slices stay. -/
theorem modifySliceLoop_map (found : Snssai → Bool) {l : List SchRrmPolicyOfSlice}
    (hn : (l.map SchRrmPolicyOfSlice.snssai).Nodup)
    (hfound : ∀ s, found s = true ↔ s ∈ l.map SchRrmPolicyOfSlice.snssai) :
    modifySliceLoop cfgReq (cfgReq.map fun p => sliceRsp p.snssai (found p.snssai)) (l.map some) =
      some ((l.map (withRequested cfgReq)).map some) := by
  induction cfgReq generalizing l with
  | nil =>
      have hid : withRequested [] = id := funext fun q => rfl
      rw [hid, List.map_id]
      rfl
  | cons p cfgReq ih =>
      have hkeys : (l.map (withRatio p)).map SchRrmPolicyOfSlice.snssai =
          l.map SchRrmPolicyOfSlice.snssai := by
        rw [List.map_map]
        exact List.map_congr_left fun q _ => withRatio_snssai p q
      have hstep : (if (sliceRsp p.snssai (found p.snssai)).rsp = .ok then
          modifyStored p (l.map some) else some (l.map some)) =
          some ((l.map (withRatio p)).map some) := by
        split
        · exact modifyStored_map p hn
        · rename_i hno
          rw [sliceRsp_ok_iff, hfound] at hno
          rw [map_withRatio_of_notMem hno]
      rw [List.map_cons, modifySliceLoop, hstep, Option.bind_some, ih (hkeys ▸ hn)
        (hkeys ▸ hfound), withRequested_cons, ← List.map_map (f := withRatio p)]

/-- **A later request changes the ratios of the slices that it names**, as long as no name is stored
twice. -/
theorem macSchSliceReCfgReq_map {l : List SchRrmPolicyOfSlice}
    (hn : (l.map SchRrmPolicyOfSlice.snssai).Nodup) (req : SchSliceCfgReq) :
    ∃ cfgRsp, macSchSliceReCfgReq (l.map some) req =
      some ((l.map (withRequested req.listOfConfirguration)).map some, some cfgRsp) := by
  refine ⟨req.listOfConfirguration.map fun p => sliceRsp p.snssai (storedIn l p.snssai), ?_⟩
  rw [macSchSliceReCfgReq_eq, modifySliceCfgInSchDb]
  by_cases hcount : (req.listOfConfirguration.countP fun p => storedIn l p.snssai) = 0
  · have hid : l.map (withRequested req.listOfConfirguration) = l := by
      refine (List.map_congr_left fun q hq => ?_).trans (List.map_id l)
      have hreq : requested req.listOfConfirguration q.snssai = none := by
        rw [requested, List.find?_eq_none.2, Option.map_none]
        intro p hp he
        refine List.countP_eq_zero.1 hcount p (List.mem_reverse.1 hp) (storedIn_iff.2 ?_)
        exact List.mem_map.2 ⟨q, hq, (of_decide_eq_true he).symm⟩
      rw [withRequested, hreq]
      rfl
    rw [if_neg (not_not.2 hcount), hid]
    rfl
  · have hne : l.map some ≠ [] := by
      intro hnil
      refine hcount (List.countP_eq_zero.2 fun p _ => ?_)
      rw [List.map_eq_nil_iff.1 hnil]
      exact Bool.false_ne_true
    rw [if_pos hcount, if_neg hne, modifySliceLoop_map _ hn fun s => storedIn_iff]
    rfl

/-- A slice that is stored once more behind stays as it is. -/
theorem modifyStored_append {p q : SchRrmPolicyOfSlice} {l : List SchRrmPolicyOfSlice}
    (hq : q ∈ l) (he : q.snssai = p.snssai) (l' : SchSliceCfg) :
    ∃ l₁ : SchSliceCfg, l₁.length = l.length ∧ modifyStored p (l.map some ++ l') = some (l₁ ++ l') := by
  induction l with
  | nil => cases hq
  | cons r l ih =>
      rw [List.map_cons, List.cons_append, modifyStored]
      split
      · exact ⟨_ :: l.map some, by simp, rfl⟩
      · rename_i hne
        obtain rfl | hq := List.mem_cons.1 hq
        · exact absurd he hne
        · obtain ⟨l₁, hlength, hl₁⟩ := ih hq
          rw [hl₁]
          exact ⟨some r :: l₁, congrArg Nat.succ hlength, rfl⟩

/-- The list of slices has names twice. -/
theorem exists_twice {l : List SchRrmPolicyOfSlice}
    (hn : ¬ (l.map SchRrmPolicyOfSlice.snssai).Nodup) :
    ∃ l₁ q l₂, l = l₁ ++ q :: l₂ ∧ ∃ p ∈ l₁, p.snssai = q.snssai := by
  rw [List.Nodup, List.pairwise_map, List.pairwise_iff_getElem] at hn
  push Not at hn
  obtain ⟨i, j, hi, hj, hij, he⟩ := hn
  exact ⟨l.take j, l[j], l.drop (j + 1),
    by rw [← List.drop_eq_getElem_cons hj, List.take_append_drop], l[i],
    List.mem_take_iff_getElem.2 ⟨i, by omega, rfl⟩, he⟩

/-- Every later request is answered, and changes the ratios as it names them. -/
def ReCfgRight (stored : SchSliceCfg) : Prop :=
  ∀ (reqs : List SchSliceCfgReq) (req : SchSliceCfgReq), ∃ now,
    reqs.foldlM (fun sliceCfg req => (macSchSliceReCfgReq sliceCfg req).map Prod.fst) stored =
      some now ∧
    ∃ cfgRsp, macSchSliceReCfgReq now req =
      some (now.map (Option.map (withRequested req.listOfConfirguration)), some cfgRsp)

theorem reCfgRight_map_iff {l : List SchRrmPolicyOfSlice} :
    ReCfgRight (l.map some) ↔ (l.map SchRrmPolicyOfSlice.snssai).Nodup := by
  constructor
  · intro h
    by_contra hn
    obtain ⟨l₁, q, l₂, rfl, p, hp, he⟩ := exists_twice hn
    obtain ⟨ratio, hratio⟩ : ∃ ratio, ratio ≠ q.rrmPolicyRatioInfo := by
      by_cases h0 : q.rrmPolicyRatioInfo = ⟨0, 0, 0⟩
      · exact ⟨⟨1, 0, 0⟩, by rw [h0]; decide⟩
      · exact ⟨⟨0, 0, 0⟩, Ne.symm h0⟩
    obtain ⟨now, hnow, cfgRsp, hr⟩ := h [] ⟨[⟨q.snssai, ratio⟩], Nat.le_of_ble_eq_true rfl⟩
    cases hnow
    obtain ⟨front, hlength, hfront⟩ :=
      @modifyStored_append ⟨q.snssai, ratio⟩ p l₁ hp he ((q :: l₂).map some)
    rw [← List.map_append] at hfront
    have hfind : storedIn (l₁ ++ q :: l₂) q.snssai = true := storedIn_iff.2 (by simp)
    have hne : (l₁ ++ q :: l₂).map some ≠ [] := by simp
    rw [macSchSliceReCfgReq_eq, modifySliceCfgInSchDb] at hr
    simp only [List.countP_singleton, List.map_singleton, hfind, if_true, if_neg hne,
      modifySliceLoop, sliceRsp, hfront] at hr
    have hlist := congrArg Prod.fst (Option.some.inj hr)
    rw [List.map_append, List.map_append] at hlist
    have hbehind := List.append_inj_right hlist (by simpa using hlength)
    have hq : q = withRequested [⟨q.snssai, ratio⟩] q :=
      Option.some.inj (List.cons.inj hbehind).1
    refine hratio (Eq.trans ?_ (congrArg SchRrmPolicyOfSlice.rrmPolicyRatioInfo hq).symm)
    simp [withRequested, requested]
  · intro hn reqs req
    have hrun : ∃ l' : List SchRrmPolicyOfSlice, (l'.map SchRrmPolicyOfSlice.snssai).Nodup ∧
        reqs.foldlM (fun sliceCfg req => (macSchSliceReCfgReq sliceCfg req).map Prod.fst)
          (l.map some) = some (l'.map some) := by
      induction reqs generalizing l with
      | nil => exact ⟨l, hn, rfl⟩
      | cons r reqs ih =>
          obtain ⟨cfgRsp, hr⟩ := macSchSliceReCfgReq_map hn r
          have hkeys : (l.map (withRequested r.listOfConfirguration)).map
              SchRrmPolicyOfSlice.snssai = l.map SchRrmPolicyOfSlice.snssai := by
            rw [List.map_map]
            exact List.map_congr_left fun q _ => withRequested_snssai q
          rw [List.foldlM_cons, hr]
          exact ih (hkeys ▸ hn)
    obtain ⟨l', hn', hl'⟩ := hrun
    obtain ⟨cfgRsp, hr⟩ := macSchSliceReCfgReq_map hn' req
    refine ⟨l'.map some, hl', cfgRsp, ?_⟩
    rw [hr, List.map_map, List.map_map]
    rfl

/-! ## The configuration -/

/-- The accepted slices are stored, in the order of the request, and later requests are right. -/
def SliceCfgRight (supported : List Snssai) (sliceCfg : SchSliceCfg) (req : SchSliceCfgReq) : Prop :=
  ∃ stored cfgRsp, macSchSliceCfgReq supported sliceCfg req = some (stored, cfgRsp) ∧
    stored = (answeredOk req.listOfConfirguration cfgRsp).map some ∧ ReCfgRight stored

/-- The accepted slices come first, none of them is named twice, and without one there were none
before. -/
structure SliceCfgHolds (supported : List Snssai) (sliceCfg : SchSliceCfg) (req : SchSliceCfgReq) :
    Prop where
  first : AcceptedFirst supported req.listOfConfirguration
  nodup : ((accepted supported req.listOfConfirguration).map SchRrmPolicyOfSlice.snssai).Nodup
  fresh : accepted supported req.listOfConfirguration = [] → sliceCfg = []

/-- **The store is right exactly in these cases.** -/
theorem sliceCfg_right_iff (supported : List Snssai) (sliceCfg : SchSliceCfg)
    (req : SchSliceCfgReq) :
    SliceCfgRight supported sliceCfg req ↔ SliceCfgHolds supported sliceCfg req := by
  obtain ⟨stored, hadd, hstored⟩ :=
    @addSliceCfgInSchDb_eq supported req.listOfConfirguration sliceCfg
  have he : macSchSliceCfgReq supported sliceCfg req = some (stored,
      req.listOfConfirguration.map fun p => sliceRsp p.snssai (p.snssai ∈ supported)) := by
    rw [macSchSliceCfgReq, @fillSliceCfgRsp_eq _ _ (fun s => decide (s ∈ supported)) fun p _ => rfl,
      Option.bind_eq_bind, Option.bind_some]
    simp only [hadd]
    rfl
  have hok := @answeredOk_map req.listOfConfirguration fun s => decide (s ∈ supported)
  constructor
  · rintro ⟨stored', cfgRsp, he', hlist, hre⟩
    cases he.symm.trans he'
    rw [hok] at hlist
    obtain ⟨hfirst, hfresh⟩ := hstored.1 hlist
    rw [hlist] at hre
    exact ⟨hfirst, reCfgRight_map_iff.1 hre, hfresh⟩
  · rintro ⟨hfirst, hnodup, hfresh⟩
    have hlist := hstored.2 ⟨hfirst, hfresh⟩
    refine ⟨stored, _, he, hlist.trans (congrArg _ hok.symm), ?_⟩
    rw [hlist]
    exact reCfgRight_map_iff.2 hnodup

/-- A slice that the cell does not support, in front of one that it supports. -/
def exampleSliceCfgReq : SchSliceCfgReq where
  listOfConfirguration := [⟨⟨1, #v[0, 0, 1]⟩, ⟨90, 30, 10⟩⟩, ⟨⟨2, #v[0, 0, 2]⟩, ⟨60, 20, 5⟩⟩]
  numOfConfiguredSlice_lt := by decide

/-- **The second slice is accepted, but a NULL pointer is stored.** -/
theorem sliceCfg_wrong : ¬ SliceCfgRight [⟨2, #v[0, 0, 2]⟩] [] exampleSliceCfgReq := by
  rintro ⟨stored, cfgRsp, he, hlist, -⟩
  have hnull : macSchSliceCfgReq [⟨2, #v[0, 0, 2]⟩] [] exampleSliceCfgReq = some ([none],
      [⟨⟨1, #v[0, 0, 1]⟩, .nok, .sliceNotFound⟩, ⟨⟨2, #v[0, 0, 2]⟩, .ok, .sliceFound⟩]) := by
    decide
  cases hnull.symm.trans he
  exact absurd hlist (by decide)

end OaiCu.OduSch
