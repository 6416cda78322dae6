import OaiCu.OduSch.DlDemand

/-!
# What the estimate does to the demand in the downlink

The header goes to the first channel that is served: the head of the dedicated list or, if no
channel is served there, that of the default list.
-/

namespace OaiCu.OduSch

instance (tbs : TbCfg) (reqBO maxPRB : ℕ) : Decidable (HeaderFits tbs reqBO maxPRB) :=
  inferInstanceAs (Decidable (_ ∨ _))

/-! ## One list -/

/-- The channel of a list that is served first, with the PRBs for it. -/
def firstOf (maxPRB : ℕ) (lcLL : List LcInfo) : Option (LcInfo × ℕ) :=
  if maxPRB = 0 then none
  else ((waiting lcLL).head?.filter fun n => n.allocBO = 0).map (·, maxPRB)

/-- What a channel gets too much, if it is the first one and the header does not fit. -/
def headerWrap (tbs : TbCfg) (n : LcInfo) (maxPRB lcId : ℕ) : ℕ :=
  if lcId = n.lcId ∧ ¬HeaderFits tbs n.reqBO maxPRB then 2 ^ 32 else 0

/-- The channel was served first in a list, and others may have been after it. -/
structure FirstServed (tbs : TbCfg) (n : LcInfo) (maxPRB : ℕ) (l l' : List LcInfo) : Prop where
  mem : n ∈ l
  moved : Moved (headerWrap tbs n maxPRB) l l'
  unchanged : firstSize tbs n.reqBO maxPRB = TX_PAYLOAD_HDR_LEN → ∀ lcId, reqOf lcId l' = reqOf lcId l
  changed : firstSize tbs n.reqBO maxPRB ≠ TX_PAYLOAD_HDR_LEN →
    ∃ n' ∈ l', n'.lcId = n.lcId ∧ n'.reqBO ≠ n.reqBO ∧ n'.allocBO ≠ 0

/-- Nothing was served. -/
structure NotServed (l l' : List LcInfo) : Prop where
  moved : Moved 0 l l'
  unchanged : ∀ lcId, reqOf lcId l' = reqOf lcId l

variable {tbs : TbCfg} {n : LcInfo} {maxPRB : ℕ} {l l' l₁ l₁' : List LcInfo}

theorem NotServed.refl (l : List LcInfo) : NotServed l l := ⟨.refl l, fun _ => rfl⟩

theorem NotServed.append (h : NotServed l l') (h' : NotServed l₁ l₁') :
    NotServed (l ++ l₁) (l' ++ l₁') where
  moved := by
    have hmoved := h.moved.append h'.moved
    rwa [add_zero] at hmoved
  unchanged := fun lcId => by
    rw [reqOf_append, reqOf_append, h.unchanged, h'.unchanged]

/-- A list in which nothing is served after one in which something was. -/
theorem FirstServed.append (h : FirstServed tbs n maxPRB l l') (hmoved : Moved 0 l₁ l₁')
    (hsame : firstSize tbs n.reqBO maxPRB = TX_PAYLOAD_HDR_LEN →
      ∀ lcId, reqOf lcId l₁' = reqOf lcId l₁) :
    FirstServed tbs n maxPRB (l ++ l₁) (l' ++ l₁') where
  mem := List.mem_append_left _ h.mem
  moved := by
    have hboth := h.moved.append hmoved
    rwa [add_zero] at hboth
  unchanged := fun hsize lcId => by
    rw [reqOf_append, reqOf_append, h.unchanged hsize, hsame hsize]
  changed := fun hsize => by
    obtain ⟨n', hn', hne⟩ := h.changed hsize
    exact ⟨n', List.mem_append_left _ hn', hne⟩

theorem FirstServed.append_right (h : FirstServed tbs n maxPRB l l') (h' : NotServed l₁ l₁') :
    FirstServed tbs n maxPRB (l₁ ++ l) (l₁' ++ l') where
  mem := List.mem_append_right _ h.mem
  moved := by
    have hboth := h'.moved.append h.moved
    rwa [zero_add] at hboth
  unchanged := fun hsize lcId => by
    rw [reqOf_append, reqOf_append, h.unchanged hsize, h'.unchanged]
  changed := fun hsize => by
    obtain ⟨n', hn', hne⟩ := h.changed hsize
    exact ⟨n', List.mem_append_right _ hn', hne⟩

/-- Other channels are served after the first one. -/
theorem FirstServed.trans (h : FirstServed tbs n maxPRB l l') (hmoved : Moved 0 l' l₁)
    (hsame : firstSize tbs n.reqBO maxPRB = TX_PAYLOAD_HDR_LEN →
      ∀ lcId, reqOf lcId l₁ = reqOf lcId l') : FirstServed tbs n maxPRB l l₁ where
  mem := h.mem
  moved := by
    have hboth := h.moved.trans hmoved
    rwa [add_zero] at hboth
  unchanged := fun hsize lcId => (hsame hsize lcId).trans (h.unchanged hsize lcId)
  changed := fun hsize => by
    obtain ⟨n', hn', hid, hne, halloc⟩ := h.changed hsize
    exact ⟨n', hmoved.keep n' hn' halloc, hid, hne, halloc⟩

namespace LcLoop

variable {isDedicatedPRB : Bool} {s : LcLoop} {t : LcTake}

/-- The first channel is served. -/
theorem serve_first (isDedicatedPRB : Bool)
    (ht : dlTake tbs true n.reqBO (s.remReservedPRB + s.sharedPRB) = some t)
    (rest : List LcInfo) (hlt : n.reqBO < 2 ^ 32) (halloc : n.allocBO = 0) :
    FirstServed tbs n (s.remReservedPRB + s.sharedPRB) (n :: rest)
      (s.serve isDedicatedPRB n rest t).lcLL := by
  obtain ⟨hsmall, hsame, hne, hfits, hwraps⟩ := dlTake_first ht hlt
  rw [serve]
  refine ⟨List.mem_cons_self, Moved.rotate rfl halloc ?_ (fun lcId hid => ?_) fun _ => hsmall,
    fun hsize lcId => ?_, fun hsize => ⟨_, List.mem_append_right _ (List.mem_singleton_self _), rfl,
      (hne hsize).1, (hne hsize).2⟩⟩
  · rw [headerWrap]
    by_cases hhdr : HeaderFits tbs n.reqBO (s.remReservedPRB + s.sharedPRB)
    · rw [if_neg fun h => h.2 hhdr]
      exact hfits hhdr
    · rw [if_pos ⟨rfl, hhdr⟩]
      exact hwraps hhdr
  · rw [headerWrap, if_neg fun h => hid h.1]
  · rw [reqOf_append, reqOf_cons, reqOf_cons, reqOf_nil, (hsame hsize).1, Nat.add_zero, Nat.add_comm]

/-- If it only gets the size of the header, then there are no PRBs any more. -/
theorem serve_first_exhausted (isDedicatedPRB : Bool)
    (ht : dlTake tbs true n.reqBO (s.remReservedPRB + s.sharedPRB) = some t)
    (rest : List LcInfo) (hpos : 0 < n.reqBO) (hlt : n.reqBO < 2 ^ 32)
    (hsize : firstSize tbs n.reqBO (s.remReservedPRB + s.sharedPRB) = TX_PAYLOAD_HDR_LEN) :
    (s.serve isDedicatedPRB n rest t).exhausted isDedicatedPRB = true ∧
      (s.serve isDedicatedPRB n rest t).sharedPRB = 0 := by
  obtain ⟨hshared, hrem⟩ := usePrb_all isDedicatedPRB (dlTake_first_prb ht hpos hlt hsize)
  rw [serve, exhausted]
  dsimp only
  rw [hshared, hrem]
  exact ⟨by cases isDedicatedPRB <;> rfl, rfl⟩

theorem exhausted_iff (hrem : isDedicatedPRB = false → s.remReservedPRB = 0) :
    s.exhausted isDedicatedPRB = true ↔ s.remReservedPRB + s.sharedPRB = 0 := by
  cases isDedicatedPRB with
  | true => simp [exhausted]
  | false => simp [exhausted, hrem rfl]

/-- The run of a loop in which no channel was served yet. -/
theorem run_first (hrem : isDedicatedPRB = false → s.remReservedPRB = 0) (hfirst : s.first = true)
    (hsmall : ∀ n ∈ s.lcLL, n.reqBO < 2 ^ 32) {fuel : ℕ} (hfuel : s.lcLL.length < fuel) {s' : LcLoop}
    (hs : run (dlTake tbs) isDedicatedPRB fuel s = some s') :
    (firstOf (s.remReservedPRB + s.sharedPRB) s.lcLL = none ∧ NotServed s.lcLL s'.lcLL ∧
      s'.sharedPRB = s.sharedPRB ∧ s'.first = true) ∨
    ∃ n, firstOf (s.remReservedPRB + s.sharedPRB) s.lcLL =
        some (n, s.remReservedPRB + s.sharedPRB) ∧
      FirstServed tbs n (s.remReservedPRB + s.sharedPRB) s.lcLL s'.lcLL ∧ s'.first = false ∧
      (firstSize tbs n.reqBO (s.remReservedPRB + s.sharedPRB) = TX_PAYLOAD_HDR_LEN →
        s'.sharedPRB = 0) := by
  obtain ⟨hmoved, hreq⟩ := waiting_moved s.lcLL
  have hmem := hmoved.small hsmall
  have hguard := exhausted_iff hrem
  rw [firstOf]
  obtain ⟨hend, rfl⟩ | ⟨n, rest, t, fuel', hcons, hpos, halloc, hex, ht, hrun⟩ :=
    run_waiting hfuel hs
  · refine .inl ⟨?_, ⟨hmoved, hreq⟩, rfl, hfirst⟩
    rcases hend with hex | hhead
    · exact if_pos (hguard.mp hex)
    · rw [Option.filter_eq_none_iff.mpr fun n hn => by simpa using hhead n hn, Option.map_none,
        ite_self]
  · have hlt : n.reqBO < 2 ^ 32 := hmem n (hcons ▸ List.mem_cons_self)
    rw [hfirst] at ht
    have hserve : FirstServed tbs n (s.remReservedPRB + s.sharedPRB) (n :: rest) _ :=
      serve_first isDedicatedPRB ht rest hlt halloc
    obtain ⟨hrest, hfirst'⟩ := run_moved rfl (hserve.moved.small (hcons ▸ hmem)) hrun
    have hstop := serve_first_exhausted isDedicatedPRB ht rest hpos hlt
    have hprb : ¬s.remReservedPRB + s.sharedPRB = 0 := fun h =>
      Bool.noConfusion (hex.symm.trans (hguard.mpr h))
    rw [if_neg hprb, hcons, List.head?_cons, Option.filter_some,
      if_pos (decide_eq_true halloc)]
    refine .inr ⟨n, rfl, ?_, hfirst', fun hsize => ?_⟩
    · have hall := hserve.trans hrest fun hsize => (run_exhausted (hstop hsize).1 hrun).1
      rw [← hcons] at hall
      exact ⟨(List.dropWhile_sublist _).subset hall.mem, by
        have hboth := hmoved.trans hall.moved
        rwa [zero_add] at hboth, fun hsize lcId => (hall.unchanged hsize lcId).trans (hreq lcId),
        hall.changed⟩
    · exact (run_exhausted (hstop hsize).1 hrun).2.trans (hstop hsize).2

end LcLoop

/-- A list in which no channel was served yet. -/
theorem prbAllocUsingRRMPolicy_first {isDedicatedPRB : Bool} {sharedPRB reservedPRB : ℕ}
    (hrem : isDedicatedPRB = false → reservedPRB = 0) (hsmall : ∀ n ∈ l, n.reqBO < 2 ^ 32)
    {s : LcLoop}
    (hs : prbAllocUsingRRMPolicy (dlTake tbs) isDedicatedPRB sharedPRB reservedPRB true l =
      some s) :
    (firstOf (reservedPRB + sharedPRB) l = none ∧ NotServed l s.lcLL ∧ s.sharedPRB = sharedPRB ∧
      s.first = true) ∨
    ∃ n, firstOf (reservedPRB + sharedPRB) l = some (n, reservedPRB + sharedPRB) ∧
      FirstServed tbs n (reservedPRB + sharedPRB) l s.lcLL ∧ s.first = false ∧
      (firstSize tbs n.reqBO (reservedPRB + sharedPRB) = TX_PAYLOAD_HDR_LEN →
        s.sharedPRB = 0) := by
  have hif : (if isDedicatedPRB then reservedPRB else 0) = reservedPRB := by
    cases isDedicatedPRB with
    | true => rfl
    | false => exact (hrem rfl).symm
  rw [prbAllocUsingRRMPolicy, hif] at hs
  exact LcLoop.run_first (s := ⟨l, sharedPRB, reservedPRB, true⟩) hrem rfl hsmall (by
    dsimp only
    omega) hs

/-! ## Both lists -/

/-- The default list after the dedicated one. -/
theorem prbAllocUsingRRMPolicy_both {reservedPRB maxFreePRB : ℕ}
    (hle : reservedPRB ≤ maxFreePRB) (hsmall : ∀ n ∈ l, n.reqBO < 2 ^ 32)
    (hsmall₁ : ∀ n ∈ l₁, n.reqBO < 2 ^ 32) {s s' : LcLoop}
    (hs : prbAllocUsingRRMPolicy (dlTake tbs) true (maxFreePRB - reservedPRB) reservedPRB true l =
      some s)
    (hs' : prbAllocUsingRRMPolicy (dlTake tbs) false s.sharedPRB 0 s.first l₁ = some s') :
    (s.lcLL.map (·.lcId)).Subperm (l.map (·.lcId)) ∧
    (s'.lcLL.map (·.lcId)).Subperm (l₁.map (·.lcId)) ∧
    (((firstOf maxFreePRB l).or (firstOf (maxFreePRB - reservedPRB) l₁) = none ∧
      NotServed (l ++ l₁) (s.lcLL ++ s'.lcLL)) ∨
    ∃ n maxPRB, (firstOf maxFreePRB l).or (firstOf (maxFreePRB - reservedPRB) l₁) =
      some (n, maxPRB) ∧ FirstServed tbs n maxPRB (l ++ l₁) (s.lcLL ++ s'.lcLL)) := by
  have hsum : reservedPRB + (maxFreePRB - reservedPRB) = maxFreePRB := Nat.add_sub_cancel' hle
  obtain ⟨hnone, hnot, hshared, hfirst⟩ | ⟨n, hsome, hserved, hfirst, hstop⟩ :=
    prbAllocUsingRRMPolicy_first (fun h => Bool.noConfusion h) hsmall hs
  · -- the dedicated list is skipped
    rw [hsum] at hnone
    rw [hshared, hfirst] at hs'
    rw [hnone, Option.none_or]
    obtain ⟨hnone', hnot', -⟩ | ⟨n, hsome', hserved', -⟩ :=
      prbAllocUsingRRMPolicy_first (fun _ => rfl) hsmall₁ hs'
    · rw [Nat.zero_add] at hnone'
      exact ⟨hnot.moved.ids, hnot'.moved.ids, .inl ⟨hnone', hnot.append hnot'⟩⟩
    · rw [Nat.zero_add] at hsome' hserved'
      exact ⟨hnot.moved.ids, hserved'.moved.ids, .inr ⟨n, _, hsome', hserved'.append_right hnot⟩⟩
  · rw [hsum] at hsome hserved hstop
    rw [hfirst] at hs'
    rw [hsome, Option.some_or]
    obtain ⟨hmoved, -⟩ := LcLoop.run_moved rfl hsmall₁ hs'
    have hsame : s.sharedPRB = 0 → ∀ lcId, reqOf lcId s'.lcLL = reqOf lcId l₁ := fun hzero =>
      (LcLoop.run_exhausted (s := ⟨l₁, s.sharedPRB, 0, false⟩)
        (LcLoop.exhausted_iff (fun _ => rfl) |>.mpr ((Nat.zero_add _).trans hzero)) hs').1
    exact ⟨hserved.moved.ids, hmoved.ids, .inr ⟨n, _, rfl,
      hserved.append hmoved fun hsize => hsame (hstop hsize)⟩⟩

namespace SchLcPrbEstimate

/-- The channel that is served first. -/
def firstServed (maxFreePRB : ℕ) (est : SchLcPrbEstimate) : Option (LcInfo × ℕ) :=
  match est.dedLcInfo.filter fun ded => ded.rsvdDedicatedPRB ≤ maxFreePRB with
  | none => firstOf maxFreePRB est.defLcList
  | some ded =>
    (firstOf maxFreePRB ded.dedLcList).or
      (firstOf (maxFreePRB - ded.rsvdDedicatedPRB) est.defLcList)

/-- What the estimate does in the downlink. -/
structure DlEstimated (tbs : TbCfg) (maxFreePRB : ℕ) (est est' : SchLcPrbEstimate) : Prop where
  ids : ∀ b, ((est'.sliceLcList b).map (·.lcId)).Subperm ((est.sliceLcList b).map (·.lcId))
  served : (est.firstServed maxFreePRB = none ∧ NotServed est.lcs est'.lcs) ∨
    ∃ n maxPRB, est.firstServed maxFreePRB = some (n, maxPRB) ∧
      FirstServed tbs n maxPRB est.lcs est'.lcs

variable {est est' : SchLcPrbEstimate} {maxFreePRB : ℕ}

theorem ids_of_lists (hded : (est'.dedLcList.map (·.lcId)).Subperm (est.dedLcList.map (·.lcId)))
    (hdef : (est'.defLcList.map (·.lcId)).Subperm (est.defLcList.map (·.lcId))) (b : Bool) :
    ((est'.sliceLcList b).map (·.lcId)).Subperm ((est.sliceLcList b).map (·.lcId)) := by
  cases b with
  | true => exact hded
  | false => exact hdef

theorem estimatePrb_dl {first : Bool} (hsmall : ∀ n ∈ est.lcs, n.reqBO < 2 ^ 32)
    (h : est.estimatePrb (dlTake tbs) maxFreePRB true = some (first, est')) :
    est.DlEstimated tbs maxFreePRB est' := by
  have hsmallDed : ∀ n ∈ est.dedLcList, n.reqBO < 2 ^ 32 := fun n hn =>
    hsmall n (List.mem_append_left _ hn)
  have hsmallDef : ∀ n ∈ est.defLcList, n.reqBO < 2 ^ 32 := fun n hn =>
    hsmall n (List.mem_append_right _ hn)
  rw [estimatePrb] at h
  split at h
  · rename_i hzero
    cases h
    refine ⟨fun b => List.Subperm.refl _, .inl ⟨?_, .refl _⟩⟩
    simp only [firstServed, hzero, Nat.zero_sub]
    split <;> rfl
  split at h
  · rename_i hfilter
    obtain ⟨s, hs, h⟩ := Option.bind_eq_some_iff.mp h
    cases h
    have hfs : est.firstServed maxFreePRB = firstOf maxFreePRB est.defLcList := by
      simp only [firstServed, hfilter]
    obtain ⟨hnone, hnot, -⟩ | ⟨n, hsome, hserved, -⟩ :=
      prbAllocUsingRRMPolicy_first (fun _ => rfl) hsmallDef hs
    · rw [Nat.zero_add] at hnone
      exact ⟨ids_of_lists (List.Subperm.refl _) hnot.moved.ids,
        .inl ⟨hfs.trans hnone, (NotServed.refl est.dedLcList).append hnot⟩⟩
    · rw [Nat.zero_add] at hsome hserved
      exact ⟨ids_of_lists (List.Subperm.refl _) hserved.moved.ids,
        .inr ⟨n, maxFreePRB, hfs.trans hsome, hserved.append_right (.refl est.dedLcList)⟩⟩
  · rename_i ded hfilter
    obtain ⟨s, hs, h⟩ := Option.bind_eq_some_iff.mp h
    obtain ⟨s', hs', h⟩ := Option.bind_eq_some_iff.mp h
    cases h
    obtain ⟨hinfo, hle⟩ := Option.filter_eq_some_iff.mp hfilter
    have hfs : est.firstServed maxFreePRB = (firstOf maxFreePRB ded.dedLcList).or
        (firstOf (maxFreePRB - ded.rsvdDedicatedPRB) est.defLcList) := by
      simp only [firstServed, hfilter]
    rw [dedLcList_eq hinfo] at hsmallDed
    obtain ⟨hded, hdef, hserved⟩ :=
      prbAllocUsingRRMPolicy_both (of_decide_eq_true hle) hsmallDed hsmallDef hs hs'
    have hdedLcList : (est.setDedLcList s.lcLL).dedLcList = s.lcLL :=
      dedLcList_setDedLcList hinfo s.lcLL
    have hlcs : est.lcs = ded.dedLcList ++ est.defLcList := by rw [lcs, dedLcList_eq hinfo]
    have hlcs' : lcs { est.setDedLcList s.lcLL with defLcList := s'.lcLL } = s.lcLL ++ s'.lcLL :=
      congrArg (· ++ s'.lcLL) hdedLcList
    refine ⟨ids_of_lists ?_ hdef, ?_⟩
    · rw [dedLcList_eq hinfo]
      exact (congrArg (List.map (·.lcId)) hdedLcList).symm ▸ hded
    · rw [hfs, hlcs, hlcs']
      exact hserved

namespace DlEstimated

variable {tbs : TbCfg} {isDedicated : ℕ → Bool} {maxLc : ℕ}

theorem ids_lcs (h : est.DlEstimated tbs maxFreePRB est') :
    (est'.lcs.map (·.lcId)).Subperm (est.lcs.map (·.lcId)) := by
  obtain ⟨-, hnot⟩ | ⟨n, maxPRB, -, hserved⟩ := h.served
  · exact hnot.moved.ids
  · exact hserved.moved.ids

theorem small (h : est.DlEstimated tbs maxFreePRB est') (hsmall : ∀ n ∈ est.lcs, n.reqBO < 2 ^ 32) :
    ∀ n ∈ est'.lcs, n.reqBO < 2 ^ 32 := by
  obtain ⟨-, hnot⟩ | ⟨n, maxPRB, -, hserved⟩ := h.served
  · exact hnot.moved.small hsmall
  · exact hserved.moved.small hsmall

/-- The requests together with the grants are what was requested before, if there was no grant
before and the header fits. -/
theorem granted_iff (h : est.DlEstimated tbs maxFreePRB est') :
    (∀ lcId, reqOf lcId est'.lcs + allocOf lcId est'.lcs = reqOf lcId est.lcs) ↔
      (∀ n ∈ est.lcs, n.allocBO = 0) ∧
        ∀ p ∈ est.firstServed maxFreePRB, HeaderFits tbs p.1.reqBO p.2 := by
  have hno : ∀ {extra : ℕ → ℕ}, Moved extra est.lcs est'.lcs →
      ((∀ lcId, reqOf lcId est'.lcs + allocOf lcId est'.lcs = reqOf lcId est.lcs) ↔
        (∀ n ∈ est.lcs, n.allocBO = 0) ∧ ∀ lcId, extra lcId = 0) := fun {extra} hmoved => by
    rw [← allocOf_eq_zero, ← forall_and]
    refine forall_congr' fun lcId => ?_
    have htotal := hmoved.total lcId
    omega
  obtain ⟨hnone, hnot⟩ | ⟨n, maxPRB, hsome, hserved⟩ := h.served
  · rw [hno hnot.moved, hnone]
    simp
  · rw [hno hserved.moved, hsome]
    refine and_congr_right fun _ => ⟨fun hextra => ?_, fun hfits lcId => ?_⟩
    · rintro _ ⟨⟩
      by_contra hwraps
      have hwrap := hextra n.lcId
      rw [headerWrap, if_pos ⟨rfl, hwraps⟩] at hwrap
      omega
    · rw [headerWrap, if_neg fun hw => hw.2 (hfits _ rfl)]

/-- The requests are what they were before if the first channel only gets the header. -/
theorem unchanged_iff (h : est.DlEstimated tbs maxFreePRB est') (hok : est.Ok isDedicated maxLc) :
    (∀ lcId, reqOf lcId est'.lcs = reqOf lcId est.lcs) ↔
      ∀ p ∈ est.firstServed maxFreePRB, firstSize tbs p.1.reqBO p.2 = TX_PAYLOAD_HDR_LEN := by
  obtain ⟨hnone, hnot⟩ | ⟨n, maxPRB, hsome, hserved⟩ := h.served
  · rw [hnone]
    exact iff_of_true hnot.unchanged fun p hp => Option.noConfusion rfl (heq_of_eq hp)
  · rw [hsome]
    constructor
    · rintro hsame _ ⟨⟩
      by_contra hsize
      obtain ⟨n', hn', hid, hne, -⟩ := hserved.changed hsize
      obtain ⟨l, hperm, hsub⟩ := h.ids_lcs
      have hnd : (est'.lcs.map (·.lcId)).Nodup := hperm.nodup_iff.mp (hsub.nodup hok.lcs_nodup)
      have hreq := hsame n.lcId
      rw [← hid, reqOf_of_mem hnd hn', hid, reqOf_of_mem hok.lcs_nodup hserved.mem] at hreq
      exact hne hreq
    · exact fun hsize => hserved.unchanged (hsize _ rfl)

end DlEstimated

/-! ## The report -/

theorem boRpt_fst (est : SchLcPrbEstimate) :
    est.boRpt.1 = est.lcs.map fun n => ⟨n.lcId, n.allocBO⟩ :=
  List.map_append.symm

theorem boRpt_slice (est : SchLcPrbEstimate) (b : Bool) :
    est.boRpt.2.sliceLcList b = (est.sliceLcList b).filter (·.reqBO ≠ 0) := by
  cases b with
  | false => rfl
  | true =>
      cases hinfo : est.dedLcInfo with
      | some ded =>
          have hded := dedLcList_setDedLcList hinfo (est.dedLcList.filter (·.reqBO ≠ 0))
          exact hded
      | none =>
          have hnil : ∀ l, (est.setDedLcList l).dedLcList = [] := fun l => by
            rw [dedLcList, setDedLcList, hinfo]
            rfl
          have hnil' : est.dedLcList = [] := by
            rw [dedLcList, hinfo]
            rfl
          rw [sliceLcList, if_pos rfl, sliceLcList, if_pos rfl, hnil']
          exact hnil _

theorem boRpt_lcs (est : SchLcPrbEstimate) : est.boRpt.2.lcs = est.lcs.filter (·.reqBO ≠ 0) := by
  rw [lcs, lcs, List.filter_append]
  exact congrArg₂ (· ++ ·) (est.boRpt_slice true) (est.boRpt_slice false)

end SchLcPrbEstimate

end OaiCu.OduSch
