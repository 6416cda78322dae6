import OaiCu.OduSch.PendingUes

/-!
# The pending UEs over a sequence of calls

A UE with something pending has to be in the list, and no node may be used after it was freed. That
is so as long as a UE that gets its RAR or MSG4 has nothing else pending, nothing is left over for a
UE that is taken out of the list, and an indication adds its UE: a BSR that comes before the UE is
configured adds the id 0, which is that of no UE.
-/

namespace OaiCu.OduSch

/-! ## One UE in one slot -/

namespace UeFlags

variable (u : UeFlags) (tried : SlotOutcome)

/-- RAR or MSG4 is scheduled in the slot. -/
def rachScheduled : Bool :=
  (u.raReq.isSome && tried.ra == .scheduled) || ((u.afterRa tried.ra).msg4recvd && tried.msg4)

/-- RAR or MSG4 is still pending after the slot. -/
def rachLeft : Bool :=
  ((u.afterRa tried.ra).afterMsg4 tried.msg4).raReq.isSome ||
    ((u.afterRa tried.ra).afterMsg4 tried.msg4).msg4recvd

/-- A UL grant or a DL message is pending. -/
def dataPending : Bool := u.isUlGrantPending || u.boInd

/-- All that is pending of them succeeds. -/
def dataServed : Bool :=
  u.dataPending && (!u.isUlGrantPending || tried.ul.ret) && (!u.boInd || tried.dl)

/-- The condition under which the list is right after the slot. -/
structure SlotSafe : Prop where
  apart : u.rachScheduled tried = true → u.dataPending = false
  rachLeft : u.rachScheduled tried = true ∨ u.dataServed tried = true → u.rachLeft tried = false
  ulLeft : u.dataServed tried = true → (u.afterUl tried.ul).isUlGrantPending = false

variable {u tried} {u' : UeFlags} {place place' : NodePlace}

/-- The requests for data are the same after RAR and MSG4. -/
theorem afterRa_data (u : UeFlags) (ra : RaOutcome) : (u.afterRa ra).srRcvd = u.srRcvd ∧
    (u.afterRa ra).bsrRcvd = u.bsrRcvd ∧ (u.afterRa ra).boInd = u.boInd := by
  unfold afterRa
  split <;> exact ⟨rfl, rfl, rfl⟩

theorem afterRa_none (h : u.raReq = none) (ra : RaOutcome) : u.afterRa ra = u := by
  unfold afterRa
  rw [h]

theorem afterUl_idle (h : u.isUlGrantPending = false) (ul : UlOutcome) : u.afterUl ul = u := by
  unfold afterUl
  rw [h]
  rfl

theorem afterUl_rest (u : UeFlags) (ul : UlOutcome) : (u.afterUl ul).raReq = u.raReq ∧
    (u.afterUl ul).msg4recvd = u.msg4recvd ∧ (u.afterUl ul).boInd = u.boInd := by
  unfold afterUl
  split
  · cases ul <;> exact ⟨rfl, rfl, rfl⟩
  · exact ⟨rfl, rfl, rfl⟩

theorem afterDl_idle (h : u.boInd = false) (dl : Bool) : u.afterDl dl = u := by
  rw [afterDl, h, Bool.false_and, ← h]

theorem tryRach_flags (u : UeFlags) (tried : SlotOutcome) :
    (u.tryRach tried).1.srRcvd = u.srRcvd ∧ (u.tryRach tried).1.bsrRcvd = u.bsrRcvd ∧
      (u.tryRach tried).1.boInd = u.boInd ∧
      ((u.tryRach tried).1.raReq.isSome || (u.tryRach tried).1.msg4recvd) = u.rachLeft tried := by
  obtain ⟨h1, h2, h3⟩ := u.afterRa_data tried.ra
  exact ⟨h1, h2, h3, rfl⟩

/-- The node is freed if RAR or MSG4 is scheduled. -/
theorem tryRach_freed_iff (u : UeFlags) (tried : SlotOutcome) :
    (u.tryRach tried).2 = .freed ↔ u.rachScheduled tried = true := by
  rw [tryRach, rachScheduled]
  dsimp only
  cases u.raReq.isSome <;> cases (u.afterRa tried.ra).msg4recvd <;> cases tried.msg4 <;>
    cases tried.ra == .scheduled <;> decide

/-- The node stays at the head if neither RAR nor MSG4 is pending. -/
theorem tryRach_head_iff (u : UeFlags) (tried : SlotOutcome) :
    (u.tryRach tried).2 = .head ↔ u.raReq = none ∧ u.msg4recvd = false := by
  rw [tryRach]
  cases hr : u.raReq with
  | none =>
      rw [afterRa_none hr]
      cases u.msg4recvd <;> cases tried.msg4 <;> simp
  | some raReq =>
      refine iff_of_false ?_ fun h => by cases h.1
      simp only [Option.isSome_some, Bool.true_or, if_true]
      split <;> exact NodePlace.noConfusion

/-- Without requests for data nothing changes. -/
theorem tryData_idle (h : u.dataPending = false) (tried : SlotOutcome) (place : NodePlace) :
    u.tryData tried place = .ok (u, place) := by
  rw [dataPending, Bool.or_eq_false_iff] at h
  rw [tryData, afterUl_idle h.1, afterDl_idle h.2, h.1, h.2]
  rfl

/-- With requests for data the node is removed if all of them succeed, and else put at the tail. -/
theorem tryData_busy (h : u.dataPending = true) (tried : SlotOutcome) (place : NodePlace) :
    u.tryData tried place = (if u.dataServed tried then place.remove else place.toTail).map
      ((u.afterUl tried.ul).afterDl tried.dl, ·) := by
  have hbool : ∀ ul dl ulRet dlRet : Bool, (ul || dl) = true → (!ul && !dl) = false ∧
      ((ul && !(ul && ulRet)) || (dl && !(dl && dlRet))) = !((!ul || ulRet) && (!dl || dlRet)) := by
    decide
  obtain ⟨hnone, hall⟩ := hbool _ _ tried.ul.ret tried.dl h
  rw [tryData, dataServed, h, Bool.true_and]
  simp only [hnone, hall]
  cases (!u.isUlGrantPending || tried.ul.ret) && (!u.boInd || tried.dl) <;> cases place <;> rfl

theorem isPending_eq (u : UeFlags) : u.isPending =
    ((u.raReq.isSome || u.msg4recvd) || (u.isUlGrantPending || u.boInd)) := by
  simp only [isPending, isUlGrantPending, Bool.or_assoc]

/-- The flags that a configuration clears. -/
theorem isPending_of_cleared (u : UeFlags)
    (h : ({ u with srRcvd := false, bsrRcvd := false } : UeFlags).isPending = true) :
    u.isPending = true := by
  simp only [isPending, Bool.or_false, Bool.or_eq_true] at h ⊢
  rcases h with h | h
  · exact .inl (.inl (.inl h))
  · exact .inr h

/-- Two sets of flags with the same requests for data. -/
theorem data_congr {v : UeFlags} (h1 : v.srRcvd = u.srRcvd) (h2 : v.bsrRcvd = u.bsrRcvd)
    (h3 : v.boInd = u.boInd) (tried : SlotOutcome) : v.dataPending = u.dataPending ∧
      v.dataServed tried = u.dataServed tried ∧
      (v.afterUl tried.ul).isUlGrantPending = (u.afterUl tried.ul).isUlGrantPending := by
  have hul : v.isUlGrantPending = u.isUlGrantPending := by
    rw [isUlGrantPending, isUlGrantPending, h1, h2]
  have hdata : v.dataPending = u.dataPending := by rw [dataPending, dataPending, hul, h3]
  refine ⟨hdata, by rw [dataServed, dataServed, hdata, hul, h3], ?_⟩
  unfold afterUl
  rw [hul]
  split
  · cases tried.ul with
    | granted => rfl
    | notGranted ret srCleared =>
        dsimp only [isUlGrantPending]
        rw [h1, h2]
  · exact hul

/-- What is still pending for a UE whose requests for data all succeeded. -/
theorem isPending_of_served (h : u.dataServed tried = true) :
    ((u.afterUl tried.ul).afterDl tried.dl).isPending =
      ((u.raReq.isSome || u.msg4recvd) || (u.afterUl tried.ul).isUlGrantPending) := by
  obtain ⟨hra, hmsg4, hbo⟩ := u.afterUl_rest tried.ul
  have hdl : (u.boInd && !tried.dl) = false := by
    rw [dataServed, Bool.and_eq_true, Bool.or_eq_true, Bool.not_eq_true'] at h
    rcases h.2 with h | h
    · rw [h, Bool.false_and]
    · rw [h, Bool.not_true, Bool.and_false]
  rw [isPending_eq, afterDl]
  simp only [isUlGrantPending, hra, hmsg4, hbo, hdl, Bool.or_false]

/-- **The list is right after the slot if and only if the slot is safe.** -/
theorem served_iff : (∃ u' place, (u.tryRach tried).1.tryData tried (u.tryRach tried).2 =
      .ok (u', place) ∧ (place = .freed → u'.isPending = false)) ↔ u.SlotSafe tried := by
  obtain ⟨hsr, hbsr, hbo, hleft⟩ := u.tryRach_flags tried
  have hfreed := u.tryRach_freed_iff tried
  generalize (u.tryRach tried).1 = v at hsr hbsr hbo hleft ⊢
  generalize (u.tryRach tried).2 = p at hfreed ⊢
  obtain ⟨hdata, hserved, hul⟩ := data_congr hsr hbsr hbo tried
  cases hd : u.dataPending with
  | false =>
      have hns : u.dataServed tried = false := by rw [dataServed, hd, Bool.false_and, Bool.false_and]
      rw [tryData_idle (hdata.trans hd)]
      have hpend : v.isPending = u.rachLeft tried := by
        rw [isPending_eq, hleft, ← dataPending, hdata, hd, Bool.or_false]
      constructor
      · rintro ⟨u', place, he, hp⟩
        cases he
        rw [hpend] at hp
        refine ⟨fun _ => hd, ?_, fun h => by rw [hns] at h; cases h⟩
        rintro (h | h)
        · exact hp (hfreed.mpr h)
        · rw [hns] at h
          cases h
      · intro hsafe
        exact ⟨v, p, rfl, fun hp => hpend.trans (hsafe.rachLeft (.inl (hfreed.mp hp)))⟩
  | true =>
      rw [tryData_busy (hdata.trans hd), hserved]
      -- a node that is freed already cannot be used again
      have hsched : u.SlotSafe tried → p ≠ .freed := fun hsafe hp => by
        have hfalse := hsafe.apart (hfreed.mp hp)
        rw [hd] at hfalse
        cases hfalse
      have hnot : p ≠ .freed → u.rachScheduled tried = false := fun hp =>
        Bool.eq_false_iff.mpr (mt hfreed.mpr hp)
      cases hs : u.dataServed tried with
      | false =>
          rw [if_neg Bool.false_ne_true]
          constructor
          · rintro ⟨u', place, he, -⟩
            have hp : p ≠ .freed := by
              rintro rfl
              cases he
            refine ⟨fun h => ?_, ?_, fun h => by rw [hs] at h; cases h⟩
            · rw [hnot hp] at h
              cases h
            · rintro (h | h)
              · rw [hnot hp] at h
                cases h
              · rw [hs] at h
                cases h
          · intro hsafe
            cases p with
            | head => exact ⟨_, _, rfl, NodePlace.noConfusion⟩
            | tail => exact ⟨_, _, rfl, NodePlace.noConfusion⟩
            | freed => exact absurd rfl (hsched hsafe)
      | true =>
          rw [if_pos rfl]
          have hpend : ((v.afterUl tried.ul).afterDl tried.dl).isPending =
              (u.rachLeft tried || (u.afterUl tried.ul).isUlGrantPending) := by
            rw [isPending_of_served (hserved.trans hs), hleft, hul]
          constructor
          · rintro ⟨u', place, he, hpl⟩
            have hp : p ≠ .freed := by
              rintro rfl
              cases he
            have hnone : (u.rachLeft tried || (u.afterUl tried.ul).isUlGrantPending) = false := by
              rw [← hpend]
              cases p with
              | head =>
                  cases he
                  exact hpl rfl
              | tail =>
                  cases he
                  exact hpl rfl
              | freed => exact absurd rfl hp
            rw [Bool.or_eq_false_iff] at hnone
            refine ⟨fun h => ?_, fun _ => hnone.1, fun _ => hnone.2⟩
            rw [hnot hp] at h
            cases h
          · intro hsafe
            have hnone : ((v.afterUl tried.ul).afterDl tried.dl).isPending = false := by
              rw [hpend, hsafe.rachLeft (.inr hs), hsafe.ulLeft hs]
              rfl
            cases p with
            | head => exact ⟨_, _, rfl, fun _ => hnone⟩
            | tail => exact ⟨_, _, rfl, fun _ => hnone⟩
            | freed => exact absurd rfl (hsched hsafe)

/-- The node leaves the head if and only if something is pending, and nothing uses it after it was
freed. -/
theorem leaves_head_iff : (∃ u' place, (u.tryRach tried).1.tryData tried (u.tryRach tried).2 =
      .ok (u', place) ∧ place ≠ .head) ↔
    u.isPending = true ∧ (u.rachScheduled tried = true → u.dataPending = false) := by
  obtain ⟨hsr, hbsr, hbo, -⟩ := u.tryRach_flags tried
  have hfreed := u.tryRach_freed_iff tried
  have hhead := u.tryRach_head_iff tried
  generalize (u.tryRach tried).1 = v at hsr hbsr hbo ⊢
  generalize (u.tryRach tried).2 = p at hfreed hhead ⊢
  obtain ⟨hdata, -, -⟩ := data_congr hsr hbsr hbo tried
  rw [isPending_eq, ← dataPending]
  cases hd : u.dataPending with
  | false =>
      rw [tryData_idle (hdata.trans hd), Bool.or_false]
      have hrach : (u.raReq.isSome || u.msg4recvd) = true ↔ p ≠ .head := by
        rw [Ne, hhead, ← Bool.not_eq_false, Bool.or_eq_false_iff, Option.isSome_eq_false_iff,
          Option.isNone_iff_eq_none]
      rw [hrach]
      constructor
      · rintro ⟨u', place, he, hp⟩
        cases he
        exact ⟨hp, fun _ => rfl⟩
      · rintro ⟨hp, -⟩
        exact ⟨v, p, rfl, hp⟩
  | true =>
      rw [tryData_busy (hdata.trans hd), Bool.or_true]
      constructor
      · rintro ⟨u', place, he, -⟩
        refine ⟨rfl, fun hsched => ?_⟩
        rw [hfreed.mpr hsched] at he
        split at he <;> cases he
      · rintro ⟨-, hapart⟩
        have hp : p ≠ .freed := fun hp => Bool.noConfusion (hapart (hfreed.mp hp))
        cases p with
        | head => split <;> exact ⟨_, _, rfl, NodePlace.noConfusion⟩
        | tail => split <;> exact ⟨_, _, rfl, NodePlace.noConfusion⟩
        | freed => exact absurd rfl hp

end UeFlags

/-! ## The list -/

namespace PendingCell

/-- No UE is in the list twice, and each UE with something pending is in it. -/
structure ListOk (cell : PendingCell) : Prop where
  nodup : cell.ueToBeScheduled.Nodup
  complete : ∀ ueId, (cell.ue ueId).isPending = true → ueId ∈ cell.ueToBeScheduled

variable {cell cell' : PendingCell} {ueId : ℕ} {rest : List ℕ} {u : UeFlags}
  {tried : SlotOutcome}

theorem init_ok : init.ListOk :=
  ⟨List.nodup_nil, fun _ h => by cases h⟩

theorem addUeToBeScheduled_nodup (h : cell.ueToBeScheduled.Nodup) (ueId : ℕ) (memory : Bool) :
    (cell.addUeToBeScheduled ueId memory).ueToBeScheduled.Nodup := by
  rw [addUeToBeScheduled]
  split
  · exact h
  · rename_i hnew
    split
    · exact List.nodup_append.mpr ⟨h, List.nodup_singleton _, fun a ha b hb hab =>
        hnew (List.mem_singleton.mp hb ▸ hab ▸ ha)⟩
    · exact h

theorem mem_addUeToBeScheduled (cell : PendingCell) (ueId : ℕ) (memory : Bool) :
    (∀ ueId' ∈ cell.ueToBeScheduled,
      ueId' ∈ (cell.addUeToBeScheduled ueId memory).ueToBeScheduled) ∧
    (ueId ∈ (cell.addUeToBeScheduled ueId memory).ueToBeScheduled ↔
      ueId ∈ cell.ueToBeScheduled ∨ memory = true) ∧
    (cell.addUeToBeScheduled ueId memory).ue = cell.ue := by
  rw [addUeToBeScheduled]
  split
  · rename_i hmem
    exact ⟨fun _ h => h, iff_of_true hmem (.inl hmem), rfl⟩
  · rename_i hnew
    split
    · rename_i hmemory
      exact ⟨fun _ h => List.mem_append_left _ h, iff_of_true (by simp) (.inr hmemory), rfl⟩
    · rename_i hmemory
      exact ⟨fun _ h => h, iff_of_false hnew (by simp [hnew, hmemory]), rfl⟩

theorem mem_of_addUeToBeScheduled {ueIdToAdd : ℕ} {memory : Bool} (hne : ueIdToAdd ≠ ueId)
    (h : ueId ∈ (cell.addUeToBeScheduled ueIdToAdd memory).ueToBeScheduled) :
    ueId ∈ cell.ueToBeScheduled := by
  rw [addUeToBeScheduled] at h
  split_ifs at h
  · exact h
  · exact (List.mem_append.mp h).resolve_right fun h => hne (List.mem_singleton.mp h).symm
  · exact h

/-- A UE is marked, and an id is added. -/
theorem marked_iff (h : cell.ListOk) (hu : u.isPending = true) (ueId ueIdToAdd : ℕ) (memory : Bool) :
    ((cell.setUe ueId u).addUeToBeScheduled ueIdToAdd memory).ListOk ↔
      ueId ∈ cell.ueToBeScheduled ∨ (ueIdToAdd = ueId ∧ memory = true) := by
  obtain ⟨hkeep, hadd, hue⟩ := (cell.setUe ueId u).mem_addUeToBeScheduled ueIdToAdd memory
  constructor
  · intro hok
    have hmem := hok.complete ueId (by rw [hue, setUe_self]; exact hu)
    by_cases he : ueIdToAdd = ueId
    · rw [he] at hadd hmem
      exact (hadd.mp hmem).imp_right fun hmemory => ⟨he, hmemory⟩
    · have hold : ueId ∈ (cell.setUe ueId u).ueToBeScheduled := mem_of_addUeToBeScheduled he hmem
      exact .inl hold
  · intro hmem
    have hnd : (cell.setUe ueId u).ueToBeScheduled.Nodup := h.nodup
    refine ⟨addUeToBeScheduled_nodup hnd ueIdToAdd memory, fun ueId' hpend => ?_⟩
    by_cases he : ueId' = ueId
    · subst he
      rcases hmem with hmem | ⟨rfl, hmemory⟩
      · exact hkeep _ hmem
      · exact hadd.mpr (.inr hmemory)
    · rw [hue, setUe_of_ne cell he] at hpend
      exact hkeep ueId' (h.complete ueId' hpend)

theorem addUeToBeScheduled_false (cell : PendingCell) (ueId : ℕ) :
    cell.addUeToBeScheduled ueId false = cell := by
  rw [addUeToBeScheduled, if_neg Bool.false_ne_true, ite_self]

/-- A UE that is not added is added without memory. -/
theorem addUeToBeScheduled_if (cell : PendingCell) (ueId : ℕ) (memory : Bool) (p : Prop)
    [Decidable p] : (if p then cell.addUeToBeScheduled ueId memory else cell) =
      cell.addUeToBeScheduled ueId (memory && decide p) := by
  by_cases hp : p
  · rw [if_pos hp, decide_eq_true hp, Bool.and_true]
  · rw [if_neg hp, decide_eq_false hp, Bool.and_false, addUeToBeScheduled_false]

/-- The lists that the UE at the head may leave. -/
theorem list_nodup (h : (ueId :: rest).Nodup) (place : NodePlace) : (place.list ueId rest).Nodup := by
  cases place with
  | head => exact h
  | tail => exact (List.perm_append_singleton ueId rest).nodup_iff.mpr h
  | freed => exact (List.nodup_cons.mp h).2

theorem mem_list (place : NodePlace) (ueId : ℕ) (rest : List ℕ) :
    (∀ ueId' ∈ rest, ueId' ∈ place.list ueId rest) ∧
      (place ≠ .freed → ueId ∈ place.list ueId rest) := by
  cases place with
  | head => exact ⟨fun _ h => List.mem_cons_of_mem _ h, fun _ => List.mem_cons_self⟩
  | tail => exact ⟨fun _ h => List.mem_append_left _ h, fun _ => by simp [NodePlace.list]⟩
  | freed => exact ⟨fun _ h => h, fun h => absurd rfl h⟩

/-- A UE for which less is pending. -/
theorem ListOk.less (h : cell.ListOk) (hu : u.isPending = true → (cell.ue ueId).isPending = true)
    (ueCb : ℕ → UeConfig) : ListOk { cell.setUe ueId u with ueCb := ueCb } := by
  refine ⟨h.nodup, fun ueId' hpend => h.complete ueId' ?_⟩
  by_cases he : ueId' = ueId
  · subst he
    exact hu ((congrArg UeFlags.isPending (setUe_self cell ueId' u)).symm.trans hpend)
  · exact (congrArg UeFlags.isPending (setUe_of_ne cell he u)).symm.trans hpend

/-- What a slot does: the UE at the head is served, and its node is put somewhere. -/
theorem schProcessSlotInd_ok (hlist : cell.ueToBeScheduled = ueId :: rest) :
    cell.schProcessSlotInd tried = .ok cell' ↔ isUe ueId = true ∧ ∃ u place,
      ((cell.ue ueId).tryRach tried).1.tryData tried ((cell.ue ueId).tryRach tried).2 =
        .ok (u, place) ∧
      cell' = { cell.setUe ueId u with ueToBeScheduled := place.list ueId rest } := by
  rw [schProcessSlotInd, hlist]
  dsimp only
  by_cases hue : isUe ueId = true
  swap
  · rw [Bool.not_eq_true] at hue
    rw [hue]
    exact iff_of_false (fun h => by cases h) fun h => Bool.noConfusion h.1
  rw [hue, Bool.not_true, if_neg Bool.false_ne_true, eq_self_iff_true, true_and]
  cases hd : ((cell.ue ueId).tryRach tried).1.tryData tried ((cell.ue ueId).tryRach tried).2 with
  | error e => exact iff_of_false (fun h => by cases h) fun ⟨_, _, h, _⟩ => by cases h
  | ok r =>
      obtain ⟨u, place⟩ := r
      constructor
      · intro h
        exact ⟨u, place, rfl, (Except.ok.inj h).symm⟩
      · rintro ⟨_, _, he, rfl⟩
        cases he
        rfl

/-- A slot keeps the list right if and only if it is safe for the UE at the head. -/
theorem slotInd_iff (h : cell.ListOk) (hlist : cell.ueToBeScheduled = ueId :: rest) :
    (∃ cell', cell.schProcessSlotInd tried = .ok cell' ∧ cell'.ListOk) ↔
      isUe ueId = true ∧ (cell.ue ueId).SlotSafe tried := by
  have hnd : (ueId :: rest).Nodup := hlist ▸ h.nodup
  rw [← UeFlags.served_iff]
  constructor
  · rintro ⟨cell', hslot, hok⟩
    obtain ⟨hue, u, place, he, rfl⟩ := (schProcessSlotInd_ok hlist).mp hslot
    refine ⟨hue, u, place, he, ?_⟩
    rintro rfl
    refine Bool.eq_false_iff.mpr fun hpend => (List.nodup_cons.mp hnd).1 (hok.complete ueId ?_)
    exact (congrArg UeFlags.isPending (setUe_self cell ueId u)).trans hpend
  · rintro ⟨hue, u, place, he, hfreed⟩
    refine ⟨_, (schProcessSlotInd_ok hlist).mpr ⟨hue, u, place, he, rfl⟩, list_nodup hnd place, ?_⟩
    obtain ⟨hrest, hself⟩ := mem_list place ueId rest
    intro ueId' hpend
    by_cases hne : ueId' = ueId
    · subst hne
      replace hpend : ((cell.setUe ueId' u).ue ueId').isPending = true := hpend
      rw [setUe_self] at hpend
      refine hself fun hp => ?_
      rw [hfreed hp] at hpend
      cases hpend
    · replace hpend : ((cell.setUe ueId u).ue ueId').isPending = true := hpend
      rw [setUe_of_ne cell hne] at hpend
      have hmem := h.complete ueId' hpend
      rw [hlist] at hmem
      exact hrest ueId' ((List.mem_cons.mp hmem).resolve_left hne)

end PendingCell

/-! ## The calls -/

namespace PendingCall

/-- The condition under which the list is right after a call. -/
def Safe (cell : PendingCell) : PendingCall → Prop
  | .rachInd raReq raReqMemory memory =>
    getUeId raReq.rachInd.crnti ≠ 0 → raReqMemory = true → isUe (getUeId raReq.rachInd.crnti) = true ∧
      (getUeId raReq.rachInd.crnti ∈ cell.ueToBeScheduled ∨ memory = true)
  | .dlBo ueId lcId dataVolume memory => isUe ueId = true ∧
    ((cell.ueCb ueId).stopDataTransmission = false → lcId ≤ MAX_DRB_LCID → dataVolume ≠ 0 →
      ueId ∈ cell.ueToBeScheduled ∨
        (memory = true ∧ (lcId = SRB0_LCID ∨ lcId ∈ (cell.ueCb ueId).dlLcs)))
  | .bsr ueId memory => isUe ueId = true ∧
    ((cell.ueCb ueId).stopDataTransmission = false →
      ueId ∈ cell.ueToBeScheduled ∨ ((cell.ueCb ueId).ueId = ueId ∧ memory = true))
  | .sr ueId numSrBits memory => isUe ueId = true ∧
    ((cell.ueCb ueId).inactive = false → (cell.ueCb ueId).stopDataTransmission = false →
      numSrBits ≠ 0 →
      ueId ∈ cell.ueToBeScheduled ∨ ((cell.ueCb ueId).ueId = ueId ∧ memory = true))
  | .addUeConfigReq ueId _ _ _ _ => isUe ueId = true
  | .modUeConfigReq ueId _ _ _ _ => isUe ueId = true
  | .slotInd tried => ∀ ueId ∈ cell.ueToBeScheduled.head?,
    isUe ueId = true ∧ (cell.ue ueId).SlotSafe tried

variable {cell cell' : PendingCell} {call : PendingCall} {out : List Unit}

/-- A call that does not fail if its UE is one of the cell. -/
theorem guarded_iff {P : PendingCell → Prop} (ueId : ℕ) (r : Except SlotErr PendingCell) :
    (∃ cell', (if !isUe ueId then .error .outOfArray else r) = .ok cell' ∧ P cell') ↔
      isUe ueId = true ∧ ∃ cell', r = .ok cell' ∧ P cell' := by
  cases isUe ueId with
  | false =>
      refine iff_of_false ?_ fun h => Bool.noConfusion h.1
      rintro ⟨_, he, -⟩
      cases he
  | true => exact (and_iff_right rfl).symm

theorem returns_iff {P : PendingCell → Prop} :
    (∃ cell', (Except.ok cell : Except SlotErr PendingCell) = .ok cell' ∧ P cell') ↔ P cell :=
  ⟨fun ⟨_, he, hp⟩ => by cases he; exact hp, fun hp => ⟨cell, rfl, hp⟩⟩

/-- A call that leaves the cell as it is where `stays` holds. -/
theorem unless_iff (h : cell.ListOk) {stays : Bool} {r : Except SlotErr PendingCell} {p : Prop}
    (hr : (∃ cell', r = .ok cell' ∧ cell'.ListOk) ↔ p) :
    (∃ cell', (if stays then .ok cell else r) = .ok cell' ∧ cell'.ListOk) ↔
      (stays = false → p) := by
  cases stays with
  | false => exact hr.trans (true_imp_iff.symm.trans (imp_congr_left (eq_self_iff_true false).symm))
  | true => exact iff_of_true ⟨cell, rfl, h⟩ Bool.noConfusion

/-- A call that marks a UE and adds an id. -/
theorem marks_iff (h : cell.ListOk) {u : UeFlags} (hu : u.isPending = true)
    (ueId ueIdToAdd : ℕ) (memory : Bool) :
    (∃ cell', .ok ((cell.setUe ueId u).addUeToBeScheduled ueIdToAdd memory) =
        (.ok cell' : Except SlotErr PendingCell) ∧ cell'.ListOk) ↔
      ueId ∈ cell.ueToBeScheduled ∨ (ueIdToAdd = ueId ∧ memory = true) :=
  returns_iff.trans (PendingCell.marked_iff h hu ueId ueIdToAdd memory)

/-- An indication of the RLC: for SRB0 the UE is added, else only for a channel that it has. -/
theorem bo_iff (h : cell.ListOk) {u u' : UeFlags} (hu : u.isPending = true)
    (hu' : u'.isPending = true) (ueId lcId : ℕ) (memory : Bool) :
    (∃ cell', (if lcId = SRB0_LCID then .ok ((cell.setUe ueId u).addUeToBeScheduled ueId memory)
        else (.ok (if lcId ∈ (cell.ueCb ueId).dlLcs then
          (cell.setUe ueId u').addUeToBeScheduled ueId memory else cell.setUe ueId u') :
            Except SlotErr PendingCell)) = .ok cell' ∧ cell'.ListOk) ↔
      ueId ∈ cell.ueToBeScheduled ∨
        (memory = true ∧ (lcId = SRB0_LCID ∨ lcId ∈ (cell.ueCb ueId).dlLcs)) := by
  split
  · rename_i hsrb
    rw [marks_iff h hu]
    simp only [hsrb, true_or, and_true, true_and]
  · rename_i hdrb
    rw [PendingCell.addUeToBeScheduled_if, marks_iff h hu', Bool.and_eq_true, decide_eq_true_iff]
    simp only [hdrb, false_or, true_and]

theorem next_iff (h : cell.ListOk) (call : PendingCall) :
    (∃ cell', next cell call = .ok cell' ∧ cell'.ListOk) ↔ call.Safe cell := by
  cases call with
  | rachInd raReq raReqMemory memory =>
      rw [next, PendingCell.schProcessRachInd, Safe]
      dsimp only
      rw [unless_iff h ((guarded_iff _ _).trans (and_congr_right fun _ =>
        marks_iff h (by simp [UeFlags.isPending]) _ _ _))]
      simp only [Bool.or_eq_false_iff, decide_eq_false_iff_not, Bool.not_eq_false', and_imp, ne_eq,
        true_and]
  | dlBo ueId lcId dataVolume memory =>
      rw [next, PendingCell.macSchDlRlcBoInfo, Safe, guarded_iff]
      refine and_congr_right fun _ => ?_
      have hmsg4 : UeFlags.isPending { cell.ue ueId with msg4recvd := true } = true := by
        simp [UeFlags.isPending]
      have hbo : UeFlags.isPending { cell.ue ueId with boInd := true } = true := by
        simp [UeFlags.isPending]
      refine (unless_iff h (bo_iff h hmsg4 hbo ueId lcId memory)).trans ?_
      simp only [Bool.or_eq_false_iff, decide_eq_false_iff_not, Nat.not_lt, and_imp, ne_eq]
  | bsr ueId memory =>
      rw [next, PendingCell.macSchBsr, Safe, guarded_iff]
      exact and_congr_right fun _ => unless_iff h (marks_iff h (by simp [UeFlags.isPending]) _ _ _)
  | sr ueId numSrBits memory =>
      rw [next, PendingCell.macSchSrUciInd, Safe, guarded_iff]
      refine and_congr_right fun _ => ?_
      rw [unless_iff h (marks_iff h (by simp [UeFlags.isPending]) _ _ _)]
      simp only [Bool.or_eq_false_iff, decide_eq_false_iff_not, and_imp, ne_eq]
  | addUeConfigReq ueId active fails stopDataTransmission dlLcs =>
      rw [next, PendingCell.macSchAddUeConfigReq, Safe, guarded_iff]
      refine and_iff_left ?_
      split
      · exact ⟨cell, rfl, h⟩
      · exact ⟨_, rfl, h.less (UeFlags.isPending_of_cleared (cell.ue ueId)) _⟩
  | modUeConfigReq ueId active fails stopDataTransmission dlLcs =>
      rw [next, PendingCell.macSchModUeConfigReq, Safe, guarded_iff]
      refine and_iff_left ?_
      split
      · exact ⟨cell, rfl, h⟩
      · refine ⟨_, rfl, h.less (fun hu => ?_) _⟩
        split at hu
        · exact hu
        · exact UeFlags.isPending_of_cleared (cell.ue ueId) hu
  | slotInd tried =>
      rw [next, Safe]
      cases hlist : cell.ueToBeScheduled with
      | nil =>
          refine iff_of_true ⟨cell, ?_, h⟩ fun _ hmem => by cases hmem
          rw [PendingCell.schProcessSlotInd, hlist]
      | cons ueId rest =>
          rw [PendingCell.slotInd_iff h hlist]
          simp only [List.head?_cons, Option.mem_some_iff, forall_eq']

theorem step_ok_iff : step cell call = .ok (cell', out) ↔ next cell call = .ok cell' ∧ out = [] := by
  rw [step]
  cases next cell call with
  | error e => exact iff_of_false (fun h => by cases h) fun h => by cases h.1
  | ok cell₁ =>
      constructor
      · intro h
        cases h
        exact ⟨rfl, rfl⟩
      · rintro ⟨h, rfl⟩
        cases h
        rfl

/-- **A call keeps the list right if and only if it is safe.** -/
theorem step_iff (h : cell.ListOk) (call : PendingCall) :
    (∃ cell' out, step cell call = .ok (cell', out) ∧ cell'.ListOk) ↔ call.Safe cell := by
  rw [← next_iff h call]
  constructor
  · rintro ⟨cell', out, hs, hok⟩
    exact ⟨cell', (step_ok_iff.mp hs).1, hok⟩
  · rintro ⟨cell', hs, hok⟩
    exact ⟨cell', [], step_ok_iff.mpr ⟨hs, rfl⟩, hok⟩

/-- **The list of the pending UEs is right after every call, and no node is used after it was
freed, if and only if every call is safe.** -/
theorem pendingList_iff (calls : List PendingCall) :
    (∀ pre, pre <+: calls → ∃ cell outs,
      Machine.run step PendingCell.init pre = .ok (cell, outs) ∧ cell.ListOk) ↔
    Machine.Along step (fun cell call => call.Safe cell) PendingCell.init calls := by
  refine Machine.prefixes_iff_along ⟨_, _, rfl, PendingCell.init_ok⟩
    (fun is ⟨cell, outs, hrun, _⟩ => ⟨cell, outs, hrun⟩) (fun is call cell outs hsafe hrun => ?_) calls
  have hok : cell.ListOk := Machine.run_invariant (fun cell call cell' out hok hsafe hs => by
    obtain ⟨cell'', out', hs', hok'⟩ := (step_iff hok call).mpr hsafe
    obtain rfl : cell' = cell'' := congrArg Prod.fst (Except.ok.inj (hs.symm.trans hs'))
    exact hok') PendingCell.init_ok hsafe hrun
  rw [← step_iff hok call]
  constructor
  · rintro ⟨cell', outs', hrun', hok'⟩
    obtain ⟨cell₁, o, out, h1, hs, -⟩ := Machine.run_snoc hrun'
    obtain rfl : cell = cell₁ := congrArg Prod.fst (Except.ok.inj (hrun.symm.trans h1))
    exact ⟨cell', out, hs, hok'⟩
  · rintro ⟨cell', out, hs, hok'⟩
    exact ⟨cell', outs ++ out, Machine.run_snoc_of_step hrun hs, hok'⟩

/-- Every call leaves each UE in the list at most once. -/
theorem step_nodup (h : cell.ueToBeScheduled.Nodup)
    (hs : step cell call = .ok (cell', out)) : cell'.ueToBeScheduled.Nodup := by
  have hadd : ∀ ueId u ueIdToAdd memory,
      ((cell.setUe ueId u).addUeToBeScheduled ueIdToAdd memory).ueToBeScheduled.Nodup :=
    fun ueId u => @PendingCell.addUeToBeScheduled_nodup (cell.setUe ueId u) h
  replace hs := (step_ok_iff.mp hs).1
  cases call with
  | rachInd raReq raReqMemory memory =>
      rw [next, PendingCell.schProcessRachInd] at hs
      dsimp only at hs
      split_ifs at hs <;> cases hs
      · exact h
      · exact hadd _ _ _ _
  | dlBo ueId lcId dataVolume memory =>
      rw [next, PendingCell.macSchDlRlcBoInfo] at hs
      dsimp only at hs
      split_ifs at hs <;> cases hs
      · exact h
      · exact hadd _ _ _ _
      · exact hadd _ _ _ _
      · exact h
  | bsr ueId memory =>
      rw [next, PendingCell.macSchBsr] at hs
      split_ifs at hs <;> cases hs
      · exact h
      · exact hadd _ _ _ _
  | sr ueId numSrBits memory =>
      rw [next, PendingCell.macSchSrUciInd] at hs
      split_ifs at hs <;> cases hs
      · exact h
      · exact hadd _ _ _ _
  | addUeConfigReq ueId active fails stopDataTransmission dlLcs =>
      rw [next, PendingCell.macSchAddUeConfigReq] at hs
      split_ifs at hs <;> cases hs <;> exact h
  | modUeConfigReq ueId active fails stopDataTransmission dlLcs =>
      rw [next, PendingCell.macSchModUeConfigReq] at hs
      split_ifs at hs <;> cases hs <;> exact h
  | slotInd tried =>
      rw [next] at hs
      cases hlist : cell.ueToBeScheduled with
      | nil =>
          rw [PendingCell.schProcessSlotInd, hlist] at hs
          cases hs
          exact h
      | cons ueId rest =>
          obtain ⟨-, u, place, -, rfl⟩ := (PendingCell.schProcessSlotInd_ok hlist).mp hs
          rw [hlist] at h
          exact PendingCell.list_nodup h place

/-- **The UE at the head leaves it if and only if it is a UE of the cell with something pending, and its
node is not used after it was freed.** -/
theorem head_leaves_iff {calls : List PendingCall} {outs : List Unit} {ueId ueId' : ℕ}
    {rest : List ℕ} (hrun : Machine.run step PendingCell.init calls = .ok (cell, outs))
    (hlist : cell.ueToBeScheduled = ueId :: ueId' :: rest) (tried : SlotOutcome) :
    (∃ cell', cell.schProcessSlotInd tried = .ok cell' ∧
      cell'.ueToBeScheduled.head? ≠ some ueId) ↔
    isUe ueId = true ∧ (cell.ue ueId).isPending = true ∧
      ((cell.ue ueId).rachScheduled tried = true → (cell.ue ueId).dataPending = false) := by
  have hnd : cell.ueToBeScheduled.Nodup :=
    @Machine.run_invariant _ _ _ _ step (fun _ _ => True)
      (fun cell => cell.ueToBeScheduled.Nodup) (fun _ _ _ _ h _ hs => step_nodup h hs) _ _ _ _
      List.nodup_nil (Machine.along_of_forall (fun _ _ => trivial) _ _) hrun
  rw [hlist] at hnd
  have hne : ueId' ≠ ueId := fun he =>
    (List.nodup_cons.mp hnd).1 (he ▸ List.mem_cons_self)
  have hhead : ∀ place : NodePlace,
      (place.list ueId (ueId' :: rest)).head? ≠ some ueId ↔ place ≠ .head := by
    intro place
    cases place with
    | head => simp [NodePlace.list]
    | tail => simp [NodePlace.list, hne]
    | freed => simp [NodePlace.list, hne]
  rw [← UeFlags.leaves_head_iff]
  constructor
  · rintro ⟨cell', hslot, hleft⟩
    obtain ⟨hue, u, place, he, rfl⟩ := (PendingCell.schProcessSlotInd_ok hlist).mp hslot
    exact ⟨hue, u, place, he, (hhead place).mp hleft⟩
  · rintro ⟨hue, u, place, he, hleft⟩
    exact ⟨_, (PendingCell.schProcessSlotInd_ok hlist).mpr ⟨hue, u, place, he, rfl⟩,
      (hhead place).mpr hleft⟩

end PendingCall

/-! ## Runs that go wrong -/

/-- MSG4 and a DL message of one UE, which is configured meanwhile, and a slot in which MSG4 is
scheduled. -/
def msg4AndDlMsg : List PendingCall :=
  [.dlBo 1 0 20 true, .addUeConfigReq 1 false false false [1], .dlBo 1 1 30 true,
    .slotInd ⟨.postponed, true, .notGranted false false, false⟩]

/-- **The node of a UE is put at the tail after it was freed.** -/
theorem msg4AndDlMsg_freed : ¬ ∀ pre, pre <+: msg4AndDlMsg → ∃ cell outs,
    Machine.run PendingCall.step PendingCell.init pre = .ok (cell, outs) ∧ cell.ListOk := by
  intro h
  obtain ⟨cell, outs, hrun, -⟩ := h msg4AndDlMsg (List.prefix_refl _)
  cases hrun

/-- **A BSR in MSG3, when the UE is not configured, adds the id 0** and not the UE, and the next slot
reads the arrays at the index -1. -/
theorem bsrInMsg3_added : ∃ cell outs,
    Machine.run PendingCall.step PendingCell.init [.bsr 1 true] = .ok (cell, outs) ∧
      cell.ueToBeScheduled = [0] ∧ (cell.ue 1).isPending = true ∧
      ∀ tried, cell.schProcessSlotInd tried = .error .outOfArray :=
  ⟨_, _, rfl, rfl, rfl, fun _ => rfl⟩

/-- The preamble of a UE. -/
def exampleRach (crnti : ℕ) : PendingCall :=
  .rachInd ⟨15, ⟨crnti, 1, 0⟩, false, ⟨0, 0⟩, ⟨1, 0⟩⟩ true true

/-- A slot after the response window, in which nothing else can be scheduled. -/
def expiredSlot : SlotOutcome := ⟨.expired, false, .notGranted false false, false⟩

/-- Two UEs whose response windows end without a RAR. -/
def twoExpired : List PendingCall :=
  [exampleRach 100, exampleRach 101, .slotInd expiredSlot, .slotInd expiredSlot]

theorem twoExpired_leaves : ∃ cell outs cell',
    Machine.run PendingCall.step PendingCell.init (twoExpired.take 2) = .ok (cell, outs) ∧
    cell.schProcessSlotInd expiredSlot = .ok cell' ∧ cell'.ueToBeScheduled.head? ≠ some 1 := by
  obtain ⟨cell', hslot, hleft⟩ := (PendingCall.head_leaves_iff
    (show Machine.run PendingCall.step PendingCell.init (twoExpired.take 2) =
      .ok (_, _) from rfl) rfl expiredSlot).mpr ⟨rfl, rfl, fun h => by cases h⟩
  exact ⟨_, _, cell', rfl, hslot, hleft⟩

/-- **A UE with nothing pending stays at the head.** -/
theorem twoExpired_stays : ∃ cell outs cell',
    Machine.run PendingCall.step PendingCell.init twoExpired = .ok (cell, outs) ∧
    cell.ueToBeScheduled = [1, 2] ∧
    cell.schProcessSlotInd expiredSlot = .ok cell' ∧ cell'.ueToBeScheduled.head? = some 1 :=
  ⟨_, _, _, rfl, rfl, rfl, rfl⟩

end OaiCu.OduSch
