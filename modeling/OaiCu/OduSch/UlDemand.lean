import OaiCu.OduSch.UlGrant
import OaiCu.OduSch.EstimateSizes

/-!
# The demand of a UE in the uplink

A call that gives no grant has to leave the volumes and the flags as they were, and a grant has to
lower the volumes by what was granted.
-/

namespace OaiCu.OduSch

/-! ## One list -/

namespace LcInfo

/-- The channel and its demand. -/
def key (n : LcInfo) : ℕ × ℕ := (n.lcId, n.demand)

end LcInfo

theorem ulTake_spec {tbs : TbCfg} {srRcvd : Bool} {reqBO maxPRB : ℕ} {t : LcTake}
    (h : ulTake tbs srRcvd reqBO maxPRB = some t) (hpos : 0 < reqBO) (hle : maxPRB ≤ 273) :
    0 < t.allocBO ∧ t.reqBO + t.allocBO = reqBO + if srRcvd then UL_GRANT_SIZE else 0 := by
  have hreq : (if srRcvd then reqBO + UL_GRANT_SIZE else reqBO) =
      reqBO + if srRcvd then UL_GRANT_SIZE else 0 := by
    cases srRcvd <;> rfl
  obtain ⟨⟨allocBO, estPrb⟩, hest, heq⟩ := Option.bind_eq_some_iff.mp h
  obtain rfl := Option.some.inj heq
  rw [hreq] at hest ⊢
  exact ⟨estimateTbSize_pos (by omega) hle hest, Nat.sub_add_cancel (estimateTbSize_spec hest).1⟩

/-- What serving a list does: the demands stay, except that the first channel that is served may
get the size of a grant in addition. -/
structure ListServed (first first' : Bool) (lcLL lcLL' : List LcInfo) : Prop where
  ids : (lcLL'.map (·.lcId)).Perm (lcLL.map (·.lcId))
  keep : first' = first → (lcLL'.map (·.key)).Perm (lcLL.map (·.key))
  grow : first' ≠ first → first = true ∧
    ∃ n ∈ lcLL, ∃ n' ∈ lcLL', n'.lcId = n.lcId ∧ n'.demand = n.demand + UL_GRANT_SIZE
  mono : ∀ n ∈ lcLL, ∃ n' ∈ lcLL', n'.lcId = n.lcId ∧ n.demand ≤ n'.demand
  alloc : (lcLL.map (·.allocBO)).sum ≤ (lcLL'.map (·.allocBO)).sum

/-- Lists with the same demands have the same channels. -/
theorem map_lcId_of_key {lcLL lcLL' : List LcInfo}
    (h : (lcLL'.map (·.key)).Perm (lcLL.map (·.key))) :
    (lcLL'.map (·.lcId)).Perm (lcLL.map (·.lcId)) := by
  have hfst : ∀ l : List LcInfo, l.map (·.lcId) = (l.map (·.key)).map Prod.fst := fun l => by
    rw [List.map_map]
    rfl
  rw [hfst, hfst]
  exact h.map _

theorem mem_of_key {lcLL lcLL' : List LcInfo} (h : (lcLL'.map (·.key)).Perm (lcLL.map (·.key)))
    {n : LcInfo} (hn : n ∈ lcLL) : ∃ n' ∈ lcLL', n'.lcId = n.lcId ∧ n'.demand = n.demand := by
  obtain ⟨n', hn', he⟩ := List.mem_map.mp (h.mem_iff.mpr (List.mem_map_of_mem hn))
  exact ⟨n', hn', congrArg Prod.fst he, congrArg Prod.snd he⟩

namespace ListServed

variable {first first' first'' : Bool} {l l' l₁ l₁' : List LcInfo}

theorem of_key (h : (l'.map (·.key)).Perm (l.map (·.key)))
    (halloc : (l.map (·.allocBO)).sum ≤ (l'.map (·.allocBO)).sum) : ListServed first first l l' where
  ids := map_lcId_of_key h
  keep := fun _ => h
  grow := fun hne => absurd rfl hne
  mono := fun n hn => by
    obtain ⟨n', hn', hid, hdem⟩ := mem_of_key h hn
    exact ⟨n', hn', hid, hdem.ge⟩
  alloc := halloc

theorem refl (first : Bool) (l : List LcInfo) : ListServed first first l l :=
  of_key (List.Perm.refl _) le_rfl

/-- Each node comes from one of its channel. -/
theorem exists_old (h : ListServed first first' l l') (hnd : (l.map (·.lcId)).Nodup) {n' : LcInfo}
    (hn' : n' ∈ l') : ∃ n ∈ l, n.lcId = n'.lcId ∧ n.demand ≤ n'.demand := by
  obtain ⟨n, hn, hid⟩ := List.mem_map.mp (h.ids.mem_iff.mp (List.mem_map_of_mem hn'))
  obtain ⟨m, hm, hid', hle⟩ := h.mono n hn
  obtain rfl : m = n' :=
    List.inj_on_of_nodup_map (h.ids.nodup_iff.mpr hnd) hm hn' (hid'.trans hid)
  exact ⟨n, hn, hid, hle⟩

theorem first_eq_false (h : ListServed false first' l l') : first' = false := by
  by_contra hne
  exact Bool.noConfusion (h.grow hne).1

/-- The flag is cleared at most once. -/
theorem first_eq (h : ListServed first first' l l') (h' : ListServed first' first'' l₁ l₁')
    (he : first'' = first) : first' = first := by
  by_contra hne
  have htrue := (h.grow hne).1
  have hne' : first'' ≠ first' := fun he' => hne (he'.symm.trans he)
  have htrue' := (h'.grow hne').1
  exact hne (htrue'.trans htrue.symm)

/-- Two lists, one after the other. -/
theorem append (h : ListServed first first' l l') (h' : ListServed first' first'' l₁ l₁') :
    ListServed first first'' (l ++ l₁) (l' ++ l₁') where
  ids := by
    rw [List.map_append, List.map_append]
    exact h.ids.append h'.ids
  keep := fun he => by
    have hfirst := h.first_eq h' he
    rw [List.map_append, List.map_append]
    exact (h.keep hfirst).append (h'.keep (he.trans hfirst.symm))
  grow := fun hne => by
    by_cases hfirst : first' = first
    · subst hfirst
      obtain ⟨htrue, n, hn, n', hn', hk⟩ := h'.grow hne
      exact ⟨htrue, n, List.mem_append_right _ hn, n', List.mem_append_right _ hn', hk⟩
    · obtain ⟨htrue, n, hn, n', hn', hk⟩ := h.grow hfirst
      exact ⟨htrue, n, List.mem_append_left _ hn, n', List.mem_append_left _ hn', hk⟩
  mono := fun n hn => by
    rcases List.mem_append.mp hn with hn | hn
    · obtain ⟨n', hn', hk⟩ := h.mono n hn
      exact ⟨n', List.mem_append_left _ hn', hk⟩
    · obtain ⟨n', hn', hk⟩ := h'.mono n hn
      exact ⟨n', List.mem_append_right _ hn', hk⟩
  alloc := by
    rw [List.map_append, List.map_append, List.sum_append, List.sum_append]
    exact Nat.add_le_add h.alloc h'.alloc

/-- One after the other on the same list. -/
theorem trans (h : ListServed first first' l l') (h' : ListServed first' first'' l' l₁) :
    ListServed first first'' l l₁ where
  ids := h'.ids.trans h.ids
  keep := fun he => by
    have hfirst := h.first_eq h' he
    exact (h'.keep (he.trans hfirst.symm)).trans (h.keep hfirst)
  grow := fun hne => by
    by_cases hfirst : first' = first
    · subst hfirst
      obtain ⟨htrue, n, hn, n', hn', hid, hdem⟩ := h'.grow hne
      obtain ⟨m, hm, hid', hdem'⟩ := mem_of_key (h.keep rfl).symm hn
      exact ⟨htrue, m, hm, n', hn', hid.trans hid'.symm, hdem'.symm ▸ hdem⟩
    · obtain ⟨htrue, n, hn, n', hn', hid, hdem⟩ := h.grow hfirst
      have hfirst' : first'' = first' := by
        by_contra hne'
        exact hfirst ((h'.grow hne').1.trans htrue.symm)
      obtain ⟨m, hm, hid', hdem'⟩ := mem_of_key (h'.keep hfirst') hn'
      exact ⟨htrue, n, hn, m, hm, hid'.trans hid, hdem'.trans hdem⟩
  mono := fun n hn => by
    obtain ⟨n', hn', hid, hle⟩ := h.mono n hn
    obtain ⟨n'', hn'', hid', hle'⟩ := h'.mono n' hn'
    exact ⟨n'', hn'', hid'.trans hid, hle.trans hle'⟩
  alloc := h.alloc.trans h'.alloc

end ListServed

namespace LcLoop

variable {tbs : TbCfg} {isDedicatedPRB : Bool} {s s' : LcLoop} {n : LcInfo} {rest : List LcInfo}
  {t : LcTake}

/-- Serving the first channel of the list. -/
theorem serve_spec (isDedicatedPRB : Bool) (hcons : s.lcLL = n :: rest) (halloc : n.allocBO = 0)
    (hpos : 0 < n.demand)
    (hprb : s.freePrb ≤ 273) (ht : ulTake tbs s.first n.reqBO s.freePrb = some t) :
    ListServed s.first false s.lcLL (s.serve isDedicatedPRB n rest t).lcLL ∧
      0 < ((s.serve isDedicatedPRB n rest t).lcLL.map (·.allocBO)).sum ∧
      ∀ m ∈ (s.serve isDedicatedPRB n rest t).lcLL, m ∈ rest ∨ 0 < m.demand := by
  rw [LcInfo.demand, halloc, Nat.add_zero] at hpos
  obtain ⟨hgot, hsum⟩ := ulTake_spec ht hpos hprb
  obtain ⟨n', hn', hid, hgot', hdemand⟩ : ∃ n', (s.serve isDedicatedPRB n rest t).lcLL =
      rest ++ [n'] ∧ n'.lcId = n.lcId ∧ 0 < n'.allocBO ∧
      n'.demand = n.demand + if s.first then UL_GRANT_SIZE else 0 := by
    refine ⟨_, rfl, rfl, hgot, ?_⟩
    rw [LcInfo.demand, LcInfo.demand, halloc, Nat.add_zero]
    exact hsum
  rw [hn', hcons]
  refine ⟨⟨?_, fun hfirst => ?_, fun hfirst => ?_, fun m hm => ?_, ?_⟩, ?_, fun m hm => ?_⟩
  · rw [List.map_append, List.map_cons, List.map_cons, List.map_nil, hid]
    exact List.perm_append_singleton _ _
  · have hkey : n'.key = n.key := by
      rw [LcInfo.key, LcInfo.key, hid, hdemand, ← hfirst]
      rfl
    rw [List.map_append, List.map_cons, List.map_cons, List.map_nil, hkey]
    exact List.perm_append_singleton _ _
  · have htrue : s.first = true := (Bool.not_eq_false _).mp fun h => hfirst h.symm
    rw [htrue, if_pos rfl] at hdemand
    exact ⟨htrue, n, List.mem_cons_self, n', by simp, hid, hdemand⟩
  · rcases List.mem_cons.mp hm with rfl | hm
    · exact ⟨n', by simp, hid, hdemand ▸ Nat.le_add_right _ _⟩
    · exact ⟨m, List.mem_append_left _ hm, rfl, le_rfl⟩
  · rw [List.map_cons, List.sum_cons, halloc, Nat.zero_add, List.map_append, List.sum_append]
    exact Nat.le_add_right _ _
  · rw [List.map_append, List.sum_append, List.map_cons, List.map_nil, List.sum_singleton]
    omega
  · rcases List.mem_append.mp hm with hm | hm
    · exact .inl hm
    · rw [List.mem_singleton.mp hm, LcInfo.demand]
      exact .inr (by omega)

/-- A round of the loop, for channels that need something. -/
theorem run_succ_of_pos {fuel : ℕ} (hpos : ∀ n ∈ s.lcLL, 0 < n.demand)
    (h : run (ulTake tbs) isDedicatedPRB (fuel + 1) s = some s') :
    (s.Done isDedicatedPRB ∧ s' = s) ∨
      ∃ n rest t, s.lcLL = n :: rest ∧ n.allocBO = 0 ∧ s.exhausted isDedicatedPRB = false ∧
        ulTake tbs s.first n.reqBO s.freePrb = some t ∧
        run (ulTake tbs) isDedicatedPRB fuel (s.serve isDedicatedPRB n rest t) = some s' := by
  obtain ⟨hdone, -, heq⟩ | ⟨n, rest, hcons, hzero, -⟩ |
    ⟨n, rest, t, hcons, -, halloc, hex, ht, h⟩ := run_succ h
  · exact .inl ⟨hdone, heq⟩
  · exact absurd hzero (hpos n (hcons ▸ List.mem_cons_self)).ne'
  · exact .inr ⟨n, rest, t, hcons, halloc, hex, ht, h⟩

theorem run_served : ∀ {fuel : ℕ} {s s' : LcLoop}, (∀ n ∈ s.lcLL, 0 < n.demand) →
    s.freePrb ≤ 273 → run (ulTake tbs) isDedicatedPRB fuel s = some s' →
    ListServed s.first s'.first s.lcLL s'.lcLL ∧ s'.freePrb ≤ s.freePrb
  | 0, s, s', _, _, h => by
      cases h
      exact ⟨.refl s.first s.lcLL, le_rfl⟩
  | fuel + 1, s, s', hpos, hprb, h => by
      obtain ⟨-, rfl⟩ | ⟨n, rest, t, hcons, halloc, -, ht, h⟩ := run_succ_of_pos hpos h
      · exact ⟨.refl s'.first s'.lcLL, le_rfl⟩
      · obtain ⟨hserved, -, hmem⟩ := serve_spec isDedicatedPRB hcons halloc
          (hpos n (hcons ▸ List.mem_cons_self)) hprb ht
        have hless : (s.serve isDedicatedPRB n rest t).freePrb ≤ s.freePrb :=
          freePrb_usePrb_le isDedicatedPRB t.estPrb s
        obtain ⟨hrest, hleft⟩ := run_served (fun m hm =>
          (hmem m hm).elim (fun h => hpos m (hcons ▸ List.mem_cons_of_mem _ h)) id)
          (hless.trans hprb) h
        exact ⟨hserved.trans hrest, hleft.trans hless⟩

/-- The first round decides whether a channel is served. -/
theorem run_starts {fuel : ℕ} (hpos : ∀ n ∈ s.lcLL, 0 < n.demand) (hprb : s.freePrb ≤ 273)
    (h : run (ulTake tbs) isDedicatedPRB (fuel + 1) s = some s') :
    (¬s.Done isDedicatedPRB → s'.first = false ∧ 0 < (s'.lcLL.map (·.allocBO)).sum) ∧
    (s.Done isDedicatedPRB → s' = s) := by
  obtain ⟨hdone, heq⟩ | ⟨n, rest, t, hcons, halloc, hex, ht, h⟩ := run_succ_of_pos hpos h
  · exact ⟨fun h => absurd hdone h, fun _ => heq⟩
  obtain ⟨-, hsum, hmem⟩ := serve_spec isDedicatedPRB hcons halloc
    (hpos n (hcons ▸ List.mem_cons_self)) hprb ht
  have hless : (s.serve isDedicatedPRB n rest t).freePrb ≤ s.freePrb :=
    freePrb_usePrb_le isDedicatedPRB t.estPrb s
  obtain ⟨hrest, -⟩ := run_served (fun m hm =>
    (hmem m hm).elim (fun h => hpos m (hcons ▸ List.mem_cons_of_mem _ h)) id)
    (hless.trans hprb) h
  have hrest : ListServed false s'.first _ _ := hrest
  refine ⟨fun _ => ⟨hrest.first_eq_false, hsum.trans_le hrest.alloc⟩, ?_⟩
  rintro (hex' | hhead)
  · exact Bool.noConfusion (hex.symm.trans hex')
  · rw [hcons] at hhead
    exact absurd halloc (hhead n rfl)

end LcLoop

/-! ## The lists of the UE -/

section

variable {lcLL : List LcInfo} {tbs : TbCfg} {isDedicatedPRB first : Bool}
  {sharedPRB reservedPRB : ℕ} {s : LcLoop} (hpos : ∀ n ∈ lcLL, 0 < n.demand)
  (hprb : reservedPRB + sharedPRB ≤ 273)
  (h : prbAllocUsingRRMPolicy (ulTake tbs) isDedicatedPRB sharedPRB reservedPRB first lcLL = some s)

include hprb in
theorem freePrb_start_le : LcLoop.freePrb
    ⟨lcLL, sharedPRB, if isDedicatedPRB then reservedPRB else 0, first⟩ ≤ 273 := by
  rw [LcLoop.freePrb]
  dsimp only
  split <;> omega

include hpos hprb h

/-- What `prbAllocUsingRRMPolicy` does to a list. -/
theorem prbAllocUsingRRMPolicy_served :
    ListServed first s.first lcLL s.lcLL ∧ s.sharedPRB ≤ 273 := by
  obtain ⟨hserved, hleft⟩ := LcLoop.run_served hpos (freePrb_start_le hprb) h
  exact ⟨hserved, (Nat.le_add_left _ _).trans (hleft.trans (freePrb_start_le hprb))⟩

/-- If no channel of the list has a grant yet, one is served if and only if there are PRBs. -/
theorem prbAllocUsingRRMPolicy_room (hnone : ∀ n ∈ lcLL, n.allocBO = 0) :
    (lcLL ≠ [] ∧ (sharedPRB ≠ 0 ∨ (isDedicatedPRB = true ∧ reservedPRB ≠ 0)) →
      s.first = false ∧ 0 < (s.lcLL.map (·.allocBO)).sum) ∧
    (¬(lcLL ≠ [] ∧ (sharedPRB ≠ 0 ∨ (isDedicatedPRB = true ∧ reservedPRB ≠ 0))) →
      s = ⟨lcLL, sharedPRB, if isDedicatedPRB then reservedPRB else 0, first⟩) := by
  have hstart := LcLoop.run_starts hpos (freePrb_start_le hprb) h
  have hdone : LcLoop.Done isDedicatedPRB
      ⟨lcLL, sharedPRB, if isDedicatedPRB then reservedPRB else 0, first⟩ ↔
      ¬(lcLL ≠ [] ∧ (sharedPRB ≠ 0 ∨ (isDedicatedPRB = true ∧ reservedPRB ≠ 0))) := by
    rw [LcLoop.Done, LcLoop.not_exhausted_iff, not_and_or, not_not, or_comm]
    refine or_congr ⟨fun h => ?_, fun hnil n hn => ?_⟩ Iff.rfl
    · by_contra hne
      exact h _ (List.head?_eq_some_head hne) (hnone _ (List.head_mem hne))
    · rw [hnil] at hn
      cases hn
  rw [hdone, not_not] at hstart
  exact hstart

end

namespace SchLcPrbEstimate

variable {tbs : TbCfg} {maxFreePRB : ℕ} {srRcvd srRcvd' : Bool} {est est' : SchLcPrbEstimate}

/-- There are PRBs for a channel in the lists. Without enough for the dedicated slice all are for
the default slice. -/
def Room (maxFreePRB : ℕ) (est : SchLcPrbEstimate) : Prop :=
  maxFreePRB ≠ 0 ∧
    ((est.dedLcList ≠ [] ∧ ∃ rsvd ∈ est.rsvdDedicatedPRB, rsvd ≤ maxFreePRB) ∨
      (est.defLcList ≠ [] ∧ maxFreePRB ∉ est.rsvdDedicatedPRB))

/-- What the estimate does in the uplink. -/
structure UlEstimated (maxFreePRB : ℕ) (srRcvd : Bool) (est : SchLcPrbEstimate) (srRcvd' : Bool)
    (est' : SchLcPrbEstimate) : Prop where
  lists : ∃ first, ListServed srRcvd first est.dedLcList est'.dedLcList ∧
    ListServed first srRcvd' est.defLcList est'.defLcList
  room : (∀ n ∈ est.lcs, n.allocBO = 0) →
    (est'.totalAllocBO ≠ 0 ↔ est.Room maxFreePRB) ∧ (est.Room maxFreePRB → srRcvd' = false) ∧
      (¬est.Room maxFreePRB → srRcvd' = srRcvd)

theorem totalAllocBO_eq (est : SchLcPrbEstimate) :
    est.totalAllocBO = (est.lcs.map (·.allocBO)).sum := by
  rw [totalAllocBO, lcs, List.map_append, List.sum_append]

theorem totalAllocBO_eq_zero : est.totalAllocBO = 0 ↔ ∀ n ∈ est.lcs, n.allocBO = 0 := by
  rw [totalAllocBO_eq, List.sum_eq_zero_iff_forall_eq_nat, List.forall_mem_map]

/-- If the PRBs are not enough for the dedicated slice, they are for the default one. -/
theorem room_iff_of_filter_none (hfree : maxFreePRB ≠ 0)
    (hfilter : est.dedLcInfo.filter (fun ded => ded.rsvdDedicatedPRB ≤ maxFreePRB) = none) :
    est.Room maxFreePRB ↔ est.defLcList ≠ [] := by
  have hrsvd : ∀ rsvd ∈ est.rsvdDedicatedPRB, maxFreePRB < rsvd := by
    rintro rsvd hrsvd
    obtain ⟨ded, hded, rfl⟩ := Option.map_eq_some_iff.mp hrsvd
    have hnot := Option.filter_eq_none_iff.mp hfilter ded hded
    rw [decide_eq_true_eq] at hnot
    exact Nat.lt_of_not_le hnot
  rw [Room, and_iff_right hfree]
  constructor
  · rintro (⟨-, rsvd, hmem, hle⟩ | ⟨hne, -⟩)
    · exact absurd hle (Nat.not_le_of_lt (hrsvd rsvd hmem))
    · exact hne
  · exact fun hne => .inr ⟨hne, fun hmem => lt_irrefl _ (hrsvd _ hmem)⟩

/-- Else the default slice gets what is not reserved. -/
theorem room_iff_of_dedicated {ded : DedicatedLCInfo} (hfree : maxFreePRB ≠ 0)
    (heq : est.dedLcInfo = some ded) (hle : ded.rsvdDedicatedPRB ≤ maxFreePRB) :
    est.Room maxFreePRB ↔
      ded.dedLcList ≠ [] ∨ (est.defLcList ≠ [] ∧ ded.rsvdDedicatedPRB < maxFreePRB) := by
  have hrsvd : est.rsvdDedicatedPRB = some ded.rsvdDedicatedPRB := by
    rw [rsvdDedicatedPRB, heq]
    rfl
  rw [Room, and_iff_right hfree, dedLcList_eq heq, hrsvd]
  simp only [Option.mem_some_iff, exists_eq_left', hle, and_true, ne_eq]
  rw [← ne_eq ded.rsvdDedicatedPRB, ← hle.lt_iff_ne]

theorem estimatePrb_spec (hpos : ∀ n ∈ est.lcs, 0 < n.demand) (hprb : maxFreePRB ≤ 273)
    (h : est.estimatePrb (ulTake tbs) maxFreePRB srRcvd = some (srRcvd', est')) :
    est.UlEstimated maxFreePRB srRcvd srRcvd' est' := by
  have hdef : ∀ n ∈ est.defLcList, 0 < n.demand := fun n hn => hpos n (List.mem_append_right _ hn)
  rw [estimatePrb] at h
  split at h
  · rename_i hzero
    cases h
    refine ⟨⟨srRcvd, .refl _ _, .refl _ _⟩, fun hnone => ?_⟩
    have hroom : ¬est.Room maxFreePRB := fun h => h.1 hzero
    exact ⟨iff_of_false (fun h => h (totalAllocBO_eq_zero.mpr hnone)) hroom, fun h => absurd h hroom,
      fun _ => rfl⟩
  rename_i hfree
  split at h
  · rename_i hfilter
    obtain ⟨s, hs, h⟩ := Option.bind_eq_some_iff.mp h
    cases h
    have hprb' : 0 + maxFreePRB ≤ 273 := (Nat.zero_add _).trans_le hprb
    refine ⟨⟨srRcvd, .refl _ _, (prbAllocUsingRRMPolicy_served hdef hprb' hs).1⟩, fun hnone => ?_⟩
    have hnone' : ∀ n ∈ est.defLcList, n.allocBO = 0 := fun n hn =>
      hnone n (List.mem_append_right _ hn)
    obtain ⟨hstart, hidle⟩ := prbAllocUsingRRMPolicy_room hdef hprb' hs hnone'
    rw [room_iff_of_filter_none hfree hfilter]
    by_cases hne : est.defLcList = []
    · obtain rfl := hidle fun h => h.1 hne
      exact ⟨iff_of_false (fun h => h (totalAllocBO_eq_zero.mpr hnone)) fun h => h hne,
        fun h => absurd hne h, fun _ => rfl⟩
    · obtain ⟨hfirst, hsum⟩ := hstart ⟨hne, .inl hfree⟩
      exact ⟨iff_of_true (Nat.add_pos_right _ hsum).ne' hne, fun _ => hfirst, fun h => absurd hne h⟩
  · rename_i ded hfilter
    obtain ⟨s, hs, h⟩ := Option.bind_eq_some_iff.mp h
    obtain ⟨s', hs', h⟩ := Option.bind_eq_some_iff.mp h
    cases h
    obtain ⟨heq, hle⟩ := Option.filter_eq_some_iff.mp hfilter
    rw [decide_eq_true_eq] at hle
    have hded : ∀ n ∈ ded.dedLcList, 0 < n.demand := dedLcList_eq heq ▸ fun n hn =>
      hpos n (List.mem_append_left _ hn)
    have hprb₁ : ded.rsvdDedicatedPRB + (maxFreePRB - ded.rsvdDedicatedPRB) ≤ 273 := by omega
    obtain ⟨hserved, hleft⟩ := prbAllocUsingRRMPolicy_served hded hprb₁ hs
    have hprb₂ : 0 + s.sharedPRB ≤ 273 := (Nat.zero_add _).trans_le hleft
    have hserved' := (prbAllocUsingRRMPolicy_served hdef hprb₂ hs').1
    refine ⟨⟨_, ?_, hserved'⟩, fun hnone => ?_⟩
    · rw [dedLcList_eq heq]
      exact (dedLcList_setDedLcList heq _).symm ▸ hserved
    have hnone₁ : ∀ n ∈ ded.dedLcList, n.allocBO = 0 := dedLcList_eq heq ▸ fun n hn =>
      hnone n (List.mem_append_left _ hn)
    have hnone₂ : ∀ n ∈ est.defLcList, n.allocBO = 0 := fun n hn =>
      hnone n (List.mem_append_right _ hn)
    obtain ⟨hstart, hidle⟩ := prbAllocUsingRRMPolicy_room hded hprb₁ hs hnone₁
    obtain ⟨hstart', hidle'⟩ := prbAllocUsingRRMPolicy_room hdef hprb₂ hs' hnone₂
    rw [room_iff_of_dedicated hfree heq hle]
    by_cases hne : ded.dedLcList = []
    · obtain rfl := hidle fun h => h.1 hne
      have hshared : maxFreePRB - ded.rsvdDedicatedPRB ≠ 0 ↔ ded.rsvdDedicatedPRB < maxFreePRB := by
        omega
      simp only [hne, ne_eq, not_true_eq_false, false_or]
      by_cases hroom' : est.defLcList ≠ [] ∧ ded.rsvdDedicatedPRB < maxFreePRB
      · obtain ⟨hfirst, hsum⟩ := hstart' ⟨hroom'.1, .inl (hshared.mpr hroom'.2)⟩
        exact ⟨iff_of_true (Nat.add_pos_right _ hsum).ne' hroom', fun _ => hfirst,
          fun h => absurd hroom' h⟩
      · obtain rfl :=
          hidle' fun h => hroom' ⟨h.1, hshared.mp (h.2.resolve_right fun h => by cases h.1)⟩
        refine ⟨iff_of_false (fun h => h (totalAllocBO_eq_zero.mpr fun n hn => ?_)) hroom',
          fun h => absurd h hroom', fun _ => rfl⟩
        refine (List.mem_append.mp hn).elim (fun hn => ?_) (hnone₂ n)
        have hn' : n ∈ [] := dedLcList_setDedLcList heq [] ▸ hn
        cases hn'
    · obtain ⟨hfirst, hsum⟩ := hstart ⟨hne, by simp only [true_and]; omega⟩
      rw [hfirst] at hserved'
      refine ⟨iff_of_true ?_ (.inl hne), fun _ => ?_, fun h => absurd (.inl hne) h⟩
      · refine (Nat.add_pos_left ?_ _).ne'
        exact (dedLcList_setDedLcList heq _).symm ▸ hsum
      · exact hserved'.first_eq_false

end SchLcPrbEstimate

end OaiCu.OduSch
