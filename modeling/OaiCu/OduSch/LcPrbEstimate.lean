import OaiCu.OduSch.LcList

/-!
# The channels of a UE in one direction (`SchLcPrbEstimate`)

The channels of the dedicated slice have a list of their own. Before PRBs are distributed, each
channel with a new request gets a node for it, or its node is set to it.
-/

namespace OaiCu.OduSch

/-- `DedicatedLCInfo`. -/
structure DedicatedLCInfo where
  dedLcList : List LcInfo
  rsvdDedicatedPRB : ℕ
deriving DecidableEq, Repr

/-- `SchLcPrbEstimate`. -/
structure SchLcPrbEstimate where
  dedLcInfo : Option DedicatedLCInfo
  defLcList : List LcInfo
deriving DecidableEq, Repr

namespace SchLcPrbEstimate

def dedLcList (est : SchLcPrbEstimate) : List LcInfo := (est.dedLcInfo.map (·.dedLcList)).getD []

def setDedLcList (est : SchLcPrbEstimate) (lcLL : List LcInfo) : SchLcPrbEstimate :=
  { est with dedLcInfo := est.dedLcInfo.map ({ · with dedLcList := lcLL }) }

/-- The request of a channel goes to the list of its slice, unless memory is missing for it. A
dedicated channel without a dedicated slice is not defined. -/
def updateLc (isDedicated memory : Bool) (lcId payloadSize : ℕ) (est : SchLcPrbEstimate) :
    Option (Option SchLcPrbEstimate) :=
  if isDedicated then
    est.dedLcInfo.map fun ded =>
      (updateLcListReqPRB memory lcId payloadSize ded.dedLcList).map est.setDedLcList
  else some ((updateLcListReqPRB memory lcId payloadSize est.defLcList).map
    ({ est with defLcList := · }))

/-- The loop over the channels from `lcId` on, `n` of them, which ends at the first one without
memory. -/
def updateLcs (isDedicated memory : ℕ → Bool) (payloadSize : ℕ → Option ℕ) :
    ℕ → ℕ → SchLcPrbEstimate → Option (ℕ × SchLcPrbEstimate)
  | 0, lcId, est => some (lcId, est)
  | n + 1, lcId, est =>
    match payloadSize lcId with
    | none => updateLcs isDedicated memory payloadSize n (lcId + 1) est
    | some size => do
      match ← est.updateLc (isDedicated lcId) (memory lcId) lcId size with
      | some est => updateLcs isDedicated memory payloadSize n (lcId + 1) est
      | none => return (lcId, est)

/-- The PRBs of the largest free block for the lists. If they are not enough for the reserved ones,
only the default slice gets any. -/
def estimatePrb (take : Bool → ℕ → ℕ → Option LcTake) (maxFreePRB : ℕ) (first : Bool)
    (est : SchLcPrbEstimate) : Option (Bool × SchLcPrbEstimate) :=
  if maxFreePRB = 0 then some (first, est)
  else
    match est.dedLcInfo.filter fun ded => ded.rsvdDedicatedPRB ≤ maxFreePRB with
    | none => do
      let s ← prbAllocUsingRRMPolicy take false maxFreePRB 0 first est.defLcList
      return (s.first, { est with defLcList := s.lcLL })
    | some ded => do
      let s ← prbAllocUsingRRMPolicy take true (maxFreePRB - ded.rsvdDedicatedPRB)
        ded.rsvdDedicatedPRB first ded.dedLcList
      let s' ← prbAllocUsingRRMPolicy take false s.sharedPRB 0 s.first est.defLcList
      return (s'.first, { est.setDedLcList s.lcLL with defLcList := s'.lcLL })

/-- No channel is waiting after the configuration of a UE. -/
def init (rsvdDedicatedPRB : Option ℕ) : SchLcPrbEstimate where
  dedLcInfo := rsvdDedicatedPRB.map fun rsvd => ⟨[], rsvd⟩
  defLcList := []

/-! ## The nodes -/

/-- The list of a slice. -/
def sliceLcList (est : SchLcPrbEstimate) (isDedicated : Bool) : List LcInfo :=
  if isDedicated then est.dedLcList else est.defLcList

/-- The nodes of both lists. -/
def lcs (est : SchLcPrbEstimate) : List LcInfo := est.dedLcList ++ est.defLcList

def rsvdDedicatedPRB (est : SchLcPrbEstimate) : Option ℕ := est.dedLcInfo.map (·.rsvdDedicatedPRB)

variable {isDedicated memory : ℕ → Bool} {payloadSize : ℕ → Option ℕ}
  {est est' est₁ est₂ : SchLcPrbEstimate} {lcId k stop size : ℕ}

theorem mem_lcs {n : LcInfo} : n ∈ est.lcs ↔ ∃ b, n ∈ est.sliceLcList b := by
  rw [lcs, List.mem_append, Bool.exists_bool, or_comm]
  rfl

theorem dedLcList_eq {ded : DedicatedLCInfo} (h : est.dedLcInfo = some ded) :
    est.dedLcList = ded.dedLcList := by
  rw [dedLcList, h]
  rfl

theorem dedLcList_setDedLcList {ded : DedicatedLCInfo} (h : est.dedLcInfo = some ded)
    (lcLL : List LcInfo) : (est.setDedLcList lcLL).dedLcList = lcLL := by
  rw [dedLcList, setDedLcList, h]
  rfl

theorem dedLcList_setDedLcList_sublist (est : SchLcPrbEstimate) (lcLL : List LcInfo) :
    (est.setDedLcList lcLL).dedLcList.Sublist lcLL := by
  cases h : est.dedLcInfo with
  | some ded => rw [dedLcList_setDedLcList h]
  | none =>
      have hnil : (est.setDedLcList lcLL).dedLcList = [] := by
        rw [dedLcList, setDedLcList, h]
        rfl
      rw [hnil]
      exact List.nil_sublist lcLL

theorem rsvdDedicatedPRB_setDedLcList (est : SchLcPrbEstimate) (lcLL : List LcInfo) :
    (est.setDedLcList lcLL).rsvdDedicatedPRB = est.rsvdDedicatedPRB := by
  rw [rsvdDedicatedPRB, setDedLcList, Option.map_map]
  rfl

theorem lcs_init (rsvdDedicatedPRB : Option ℕ) :
    (SchLcPrbEstimate.init rsvdDedicatedPRB).lcs = [] := by
  cases rsvdDedicatedPRB <;> rfl

/-- Each channel has at most one node, in the list of its slice. -/
structure Ok (isDedicated : ℕ → Bool) (maxLc : ℕ) (est : SchLcPrbEstimate) : Prop where
  nodup : ∀ b, ((est.sliceLcList b).map (·.lcId)).Nodup
  slice : ∀ b, ∀ n ∈ est.sliceLcList b, isDedicated n.lcId = b
  small : ∀ n ∈ est.lcs, n.lcId < maxLc

namespace Ok

variable {maxLc : ℕ}

theorem mem_slice (h : est.Ok isDedicated maxLc) {n : LcInfo} {b : Bool} :
    n ∈ est.sliceLcList b ↔ n ∈ est.lcs ∧ isDedicated n.lcId = b := by
  refine ⟨fun hn => ⟨mem_lcs.mpr ⟨b, hn⟩, h.slice b n hn⟩, fun ⟨hn, hb⟩ => ?_⟩
  obtain ⟨b', hn⟩ := mem_lcs.mp hn
  rw [← hb, h.slice b' n hn]
  exact hn

theorem lcs_nodup (h : est.Ok isDedicated maxLc) : (est.lcs.map (·.lcId)).Nodup := by
  rw [lcs, List.map_append]
  refine List.nodup_append.mpr ⟨h.nodup true, h.nodup false, fun a ha b hb hab => ?_⟩
  obtain ⟨n, hn, rfl⟩ := List.mem_map.mp ha
  obtain ⟨m, hm, rfl⟩ := List.mem_map.mp hb
  have hded := h.slice true n hn
  rw [hab, h.slice false m hm] at hded
  cases hded

theorem eq_of_lcId (h : est.Ok isDedicated maxLc) {n m : LcInfo} (hn : n ∈ est.lcs)
    (hm : m ∈ est.lcs) (hid : n.lcId = m.lcId) : n = m :=
  List.inj_on_of_nodup_map h.lcs_nodup hn hm hid

/-- The lists keep their channels, or lose some. -/
theorem of_subperm (h : est.Ok isDedicated maxLc)
    (hids : ∀ b, ((est'.sliceLcList b).map (·.lcId)).Subperm ((est.sliceLcList b).map (·.lcId))) :
    est'.Ok isDedicated maxLc := by
  have hold : ∀ b, ∀ n' ∈ est'.sliceLcList b, ∃ n ∈ est.sliceLcList b, n.lcId = n'.lcId :=
    fun b n' hn' => List.mem_map.mp ((hids b).subset (List.mem_map_of_mem hn'))
  refine ⟨fun b => ?_, fun b n' hn' => ?_, fun n' hn' => ?_⟩
  · obtain ⟨l, hperm, hsub⟩ := hids b
    exact hperm.nodup_iff.mp (hsub.nodup (h.nodup b))
  · obtain ⟨n, hn, hid⟩ := hold b n' hn'
    exact hid ▸ h.slice b n hn
  · obtain ⟨b, hn'⟩ := mem_lcs.mp hn'
    obtain ⟨n, hn, hid⟩ := hold b n' hn'
    exact hid ▸ h.small n (mem_lcs.mpr ⟨b, hn⟩)

theorem init (isDedicated : ℕ → Bool) (maxLc : ℕ) (rsvdDedicatedPRB : Option ℕ) :
    (SchLcPrbEstimate.init rsvdDedicatedPRB).Ok isDedicated maxLc := by
  have hnil : ∀ b, (SchLcPrbEstimate.init rsvdDedicatedPRB).sliceLcList b = [] := fun b => by
    cases b with
    | true => cases rsvdDedicatedPRB <;> rfl
    | false => rfl
  refine ⟨fun b => ?_, fun b n hn => ?_, fun n hn => ?_⟩
  · rw [hnil]
    exact List.nodup_nil
  · rw [hnil] at hn
    cases hn
  · rw [lcs_init] at hn
    cases hn

end Ok

/-! ## The new requests -/

/-- The node is that of a new request. -/
def IsFresh (payloadSize : ℕ → Option ℕ) (n : LcInfo) : Prop :=
  payloadSize n.lcId = some n.reqBO ∧ n.allocBO = 0 ∧ n.allocPRB = 0

theorem isFresh_iff {n : LcInfo} :
    IsFresh payloadSize n ↔ payloadSize n.lcId = some n.reqBO ∧ n = ⟨n.lcId, n.reqBO, 0, 0⟩ := by
  obtain ⟨lcId, reqBO, allocBO, allocPRB⟩ := n
  simp [IsFresh]

/-- The channels of a set got the nodes for their requests. -/
structure Refreshed (payloadSize : ℕ → Option ℕ) (channels : ℕ → Prop)
    (est est₁ : SchLcPrbEstimate) : Prop where
  rsvd : est₁.rsvdDedicatedPRB = est.rsvdDedicatedPRB
  mem : ∀ n, n ∈ est₁.lcs ↔ (channels n.lcId ∧ IsFresh payloadSize n) ∨
    (¬channels n.lcId ∧ n ∈ est.lcs)

namespace Refreshed

variable {channels channels' : ℕ → Prop}

theorem refl (h : ∀ lcId, ¬channels lcId) (est : SchLcPrbEstimate) :
    Refreshed payloadSize channels est est :=
  ⟨rfl, fun n => by simp [h]⟩

theorem trans (h : Refreshed payloadSize channels est est₁)
    (h' : Refreshed payloadSize channels' est₁ est₂) :
    Refreshed payloadSize (fun lcId => channels lcId ∨ channels' lcId) est est₂ := by
  refine ⟨h'.rsvd.trans h.rsvd, fun n => ?_⟩
  rw [h'.mem, h.mem]
  tauto

theorem congr (h : Refreshed payloadSize channels est est₁)
    (hiff : ∀ lcId, channels lcId ↔ channels' lcId) : Refreshed payloadSize channels' est est₁ :=
  ⟨h.rsvd, fun n => by rw [h.mem, hiff]⟩

/-- The channels with a node. -/
theorem lcId_mem (h : Refreshed payloadSize channels est est₁)
    (hsome : ∀ lcId, channels lcId → payloadSize lcId ≠ none) (lcId : ℕ) :
    (∃ n ∈ est₁.lcs, n.lcId = lcId) ↔ (∃ n ∈ est.lcs, n.lcId = lcId) ∨ channels lcId := by
  constructor
  · rintro ⟨n, hn, rfl⟩
    exact ((h.mem n).mp hn).elim (fun hnew => .inr hnew.1) fun hold => .inl ⟨n, hold.2, rfl⟩
  · intro hlc
    by_cases hch : channels lcId
    · obtain ⟨size, hsize⟩ := Option.ne_none_iff_exists'.mp (hsome lcId hch)
      exact ⟨⟨lcId, size, 0, 0⟩, (h.mem _).mpr (.inl ⟨hch, hsize, rfl, rfl⟩), rfl⟩
    · obtain ⟨n, hn, rfl⟩ := hlc.resolve_right hch
      exact ⟨n, (h.mem n).mpr (.inr ⟨hch, hn⟩), rfl⟩

end Refreshed

/-- What a list gets, with memory. -/
theorem updateLc_cases {b memory : Bool} {r : Option SchLcPrbEstimate}
    (h : est.updateLc b memory lcId size = some r) :
    (r = none ∧ updateLcListReqPRB memory lcId size (est.sliceLcList b) = none) ∨
    ∃ est' lcLL, r = some est' ∧
      updateLcListReqPRB memory lcId size (est.sliceLcList b) = some lcLL ∧
      est'.rsvdDedicatedPRB = est.rsvdDedicatedPRB ∧
      ∀ b', est'.sliceLcList b' = if b' = b then lcLL else est.sliceLcList b' := by
  cases b with
  | true =>
      rw [updateLc, if_pos rfl] at h
      obtain ⟨ded, hinfo, rfl⟩ := Option.map_eq_some_iff.mp h
      rw [sliceLcList, if_pos rfl, dedLcList_eq hinfo]
      cases hlist : updateLcListReqPRB memory lcId size ded.dedLcList with
      | none => exact .inl ⟨rfl, rfl⟩
      | some lcLL =>
          refine .inr ⟨_, lcLL, rfl, rfl, est.rsvdDedicatedPRB_setDedLcList lcLL, fun b' => ?_⟩
          cases b' with
          | true => exact dedLcList_setDedLcList hinfo lcLL
          | false => rfl
  | false =>
      rw [updateLc, if_neg Bool.false_ne_true] at h
      cases hlist : updateLcListReqPRB memory lcId size est.defLcList with
      | none =>
          rw [hlist] at h
          exact .inl ⟨(Option.some.inj h).symm, hlist⟩
      | some lcLL =>
          rw [hlist] at h
          refine .inr ⟨_, lcLL, (Option.some.inj h).symm, hlist, rfl, fun b' => ?_⟩
          cases b' <;> rfl

/-- One channel gets its node. -/
theorem updateLc_spec {maxLc : ℕ} {memory : Bool}
    (h : est.updateLc (isDedicated lcId) memory lcId size = some (some est'))
    (hok : est.Ok isDedicated maxLc) (hlc : lcId < maxLc) (hsize : payloadSize lcId = some size) :
    est'.Ok isDedicated maxLc ∧ Refreshed payloadSize (· = lcId) est est' := by
  obtain ⟨hnone, -⟩ | ⟨est'', lcLL, hsome, hlist, hrsvd, hslice⟩ := updateLc_cases h
  · cases hnone
  cases hsome
  obtain ⟨hnd, hfresh, hkeep, hall⟩ := updateLcListReqPRB_spec hlist (hok.nodup _)
  have hmem : ∀ b n, n ∈ est'.sliceLcList b →
      (n = ⟨lcId, size, 0, 0⟩ ∧ b = isDedicated lcId) ∨
      (n ∈ est.sliceLcList b ∧ n.lcId ≠ lcId) := fun b n hn => by
    rw [hslice] at hn
    split at hn
    · rename_i hb
      exact (hall n hn).imp (fun h => ⟨h, hb⟩) fun h => ⟨hb ▸ h.1, h.2⟩
    · rename_i hb
      refine .inr ⟨hn, fun hid => hb ?_⟩
      rw [← hid, hok.slice b n hn]
  refine ⟨⟨fun b => ?_, fun b n hn => ?_, fun n hn => ?_⟩, hrsvd, fun n => ?_⟩
  · rw [hslice]
    split
    · exact hnd
    · exact hok.nodup b
  · obtain ⟨rfl, rfl⟩ | ⟨hn, -⟩ := hmem b n hn
    · rfl
    · exact hok.slice b n hn
  · obtain ⟨b, hn⟩ := mem_lcs.mp hn
    obtain ⟨rfl, -⟩ | ⟨hn, -⟩ := hmem b n hn
    · exact hlc
    · exact hok.small n (mem_lcs.mpr ⟨b, hn⟩)
  · constructor
    · intro hn
      obtain ⟨b, hn⟩ := mem_lcs.mp hn
      obtain ⟨rfl, -⟩ | ⟨hn, hid⟩ := hmem b n hn
      · exact .inl ⟨rfl, hsize, rfl, rfl⟩
      · exact .inr ⟨hid, mem_lcs.mpr ⟨b, hn⟩⟩
    · rintro (⟨hid, hnew⟩ | ⟨hid, hn⟩)
      · obtain ⟨hreq, hn⟩ := isFresh_iff.mp hnew
        rw [hid, hsize] at hreq
        refine mem_lcs.mpr ⟨isDedicated lcId, ?_⟩
        rw [hslice, if_pos rfl, hn, hid, ← Option.some.inj hreq]
        exact hfresh
      · obtain ⟨b, hn⟩ := mem_lcs.mp hn
        refine mem_lcs.mpr ⟨b, ?_⟩
        rw [hslice]
        split
        · rename_i hb
          exact hkeep n (hb ▸ hn) hid
        · exact hn

/-- The loop over the channels, up to where it ends. -/
theorem updateLcs_spec {maxLc : ℕ} : ∀ {k lcId : ℕ} {est est₁ : SchLcPrbEstimate} {stop : ℕ},
    est.updateLcs isDedicated memory payloadSize k lcId = some (stop, est₁) →
    est.Ok isDedicated maxLc → lcId + k ≤ maxLc →
    lcId ≤ stop ∧ stop ≤ lcId + k ∧ est₁.Ok isDedicated maxLc ∧
      Refreshed payloadSize (fun id => (lcId ≤ id ∧ id < stop) ∧ payloadSize id ≠ none) est est₁
  | 0, lcId, est, est₁, stop, h, hok, _ => by
      obtain ⟨rfl, rfl⟩ := Prod.mk.inj (Option.some.inj h)
      exact ⟨le_rfl, le_rfl, hok, Refreshed.refl (fun id hid => by omega) est⟩
  | k + 1, lcId, est, est₁, stop, h, hok, hle => by
      rw [updateLcs] at h
      split at h
      · rename_i hnone
        obtain ⟨hge, hlt, hok₁, hrest⟩ := updateLcs_spec h hok (by omega)
        refine ⟨by omega, by omega, hok₁, hrest.congr fun id => and_congr_left fun hsome => ?_⟩
        have hne : id ≠ lcId := fun he => hsome (he ▸ hnone)
        omega
      · rename_i size hsize
        obtain ⟨r, hlc, h⟩ := Option.bind_eq_some_iff.mp h
        cases r with
        | none =>
            obtain ⟨rfl, rfl⟩ := Prod.mk.inj (Option.some.inj h)
            exact ⟨le_rfl, by omega, hok, Refreshed.refl (fun id hid => by omega) est⟩
        | some est' =>
            obtain ⟨hok', hone⟩ := updateLc_spec hlc hok (by omega) hsize
            obtain ⟨hge, hlt, hok₁, hrest⟩ := updateLcs_spec h hok' (by omega)
            refine ⟨by omega, by omega, hok₁, (hone.trans hrest).congr fun id => ?_⟩
            constructor
            · rintro (rfl | ⟨hid, hsome⟩)
              · exact ⟨by omega, hsize ▸ Option.some_ne_none size⟩
              · exact ⟨by omega, hsome⟩
            · rintro ⟨hid, hsome⟩
              by_cases he : id = lcId
              · exact .inl he
              · exact .inr ⟨by omega, hsome⟩

/-- A channel with a new request has a node or memory for one, and its slice exists. -/
def CanRefresh (isDedicated memory : ℕ → Bool) (payloadSize : ℕ → Option ℕ)
    (est : SchLcPrbEstimate) (lcId : ℕ) : Prop :=
  payloadSize lcId ≠ none → (isDedicated lcId = true → est.rsvdDedicatedPRB ≠ none) ∧
    (memory lcId = true ∨ ∃ n ∈ est.lcs, n.lcId = lcId)

theorem mem_slice_ids {maxLc : ℕ} (hok : est.Ok isDedicated maxLc) :
    lcId ∈ (est.sliceLcList (isDedicated lcId)).map (·.lcId) ↔ ∃ n ∈ est.lcs, n.lcId = lcId := by
  rw [List.mem_map]
  constructor
  · rintro ⟨n, hn, hid⟩
    exact ⟨n, mem_lcs.mpr ⟨_, hn⟩, hid⟩
  · rintro ⟨n, hn, rfl⟩
    exact ⟨n, hok.mem_slice.mpr ⟨hn, rfl⟩, rfl⟩

theorem updateLc_some_iff {maxLc : ℕ} (hok : est.Ok isDedicated maxLc)
    (hsize : payloadSize lcId = some size) :
    (∃ est', est.updateLc (isDedicated lcId) (memory lcId) lcId size = some (some est')) ↔
      est.CanRefresh isDedicated memory payloadSize lcId := by
  have hnone := @updateLcListReqPRB_eq_none lcId size (est.sliceLcList (isDedicated lcId))
    (memory lcId)
  rw [mem_slice_ids hok] at hnone
  constructor
  · rintro ⟨est', h⟩ -
    constructor
    · intro hded hinfo
      rw [updateLc, hded, if_pos rfl, Option.map_eq_none_iff.mp hinfo] at h
      cases h
    obtain ⟨hr, -⟩ | ⟨_, lcLL, -, hlist, -⟩ := updateLc_cases h
    · cases hr
    · by_contra hcan
      rw [not_or, Bool.not_eq_true] at hcan
      rw [hnone.mpr hcan] at hlist
      cases hlist
  · intro hcan
    obtain ⟨hinfo, hmem⟩ := hcan (hsize ▸ Option.some_ne_none size)
    have hdef : est.updateLc (isDedicated lcId) (memory lcId) lcId size ≠ none := by
      rw [updateLc]
      split
      · rename_i hded
        exact fun h => hinfo hded (Option.map_eq_none_iff.mpr (Option.map_eq_none_iff.mp h))
      · exact Option.some_ne_none _
    obtain ⟨r, hr⟩ := Option.ne_none_iff_exists'.mp hdef
    obtain ⟨-, hlist⟩ | ⟨est', -, rfl, -⟩ := updateLc_cases hr
    · obtain ⟨hmemory, hno⟩ := hnone.mp hlist
      exact absurd (hmem.resolve_left (by rw [hmemory]; exact Bool.false_ne_true)) hno
    · exact ⟨est', hr⟩

/-- A channel is not affected by the request of another one. -/
theorem Refreshed.canRefresh_iff {channels : ℕ → Prop}
    (h : Refreshed payloadSize channels est est₁) (hlc : ¬channels lcId) :
    est₁.CanRefresh isDedicated memory payloadSize lcId ↔
      est.CanRefresh isDedicated memory payloadSize lcId := by
  have hnode : (∃ n ∈ est₁.lcs, n.lcId = lcId) ↔ ∃ n ∈ est.lcs, n.lcId = lcId :=
    exists_congr fun n => and_congr_left fun hid => by
      subst hid
      rw [h.mem, or_iff_right fun hn => hlc hn.1, and_iff_right hlc]
  rw [CanRefresh, CanRefresh, h.rsvd, hnode]

/-- The loop gets to its end. -/
theorem updateLcs_all_iff {maxLc : ℕ} : ∀ {k lcId : ℕ} {est : SchLcPrbEstimate},
    est.Ok isDedicated maxLc → lcId + k ≤ maxLc →
    ((∃ est₁, est.updateLcs isDedicated memory payloadSize k lcId = some (lcId + k, est₁)) ↔
      ∀ id, lcId ≤ id → id < lcId + k → est.CanRefresh isDedicated memory payloadSize id)
  | 0, lcId, est, _, _ => iff_of_true ⟨est, rfl⟩ fun id hge hlt => by omega
  | k + 1, lcId, est, hok, hle => by
      have hcast : lcId + (k + 1) = lcId + 1 + k := by omega
      rw [updateLcs, hcast]
      split
      · rename_i hnone
        rw [updateLcs_all_iff (k := k) hok (by omega)]
        constructor
        · intro h id hge hlt
          by_cases hid : id = lcId
          · exact fun hsome => absurd (hid ▸ hnone) hsome
          · exact h id (by omega) hlt
        · exact fun h id hge hlt => h id (by omega) hlt
      · rename_i size hsize
        have hfirst : (∃ est', est.updateLc (isDedicated lcId) (memory lcId) lcId size =
          some (some est')) ↔ _ := updateLc_some_iff hok hsize
        constructor
        · rintro ⟨est₁, h⟩ id hge hlt
          obtain ⟨r, hlc, h⟩ := Option.bind_eq_some_iff.mp h
          cases r with
          | none =>
              obtain ⟨hstop, -⟩ := Prod.mk.inj (Option.some.inj h)
              omega
          | some est' =>
              obtain ⟨hok', hone⟩ := updateLc_spec hlc hok (by omega) hsize
              by_cases hid : id = lcId
              · exact hid ▸ hfirst.mp ⟨est', hlc⟩
              · have hrest := (updateLcs_all_iff (k := k) hok' (by omega)).mp ⟨est₁, h⟩ id
                  (by omega) hlt
                exact (hone.canRefresh_iff hid).mp hrest
        · intro h
          obtain ⟨est', hlc⟩ := hfirst.mpr (h lcId le_rfl (by omega))
          obtain ⟨hok', hone⟩ := updateLc_spec hlc hok (by omega) hsize
          have hrest : ∃ est₁, est'.updateLcs isDedicated memory payloadSize k (lcId + 1) =
              some (lcId + 1 + k, est₁) :=
            (updateLcs_all_iff hok' (by omega)).mpr fun id hge hlt =>
              (hone.canRefresh_iff (by omega)).mpr (h id (by omega) hlt)
          obtain ⟨est₁, hrest⟩ := hrest
          exact ⟨est₁, by rw [hlc]; exact hrest⟩

end SchLcPrbEstimate

end OaiCu.OduSch
