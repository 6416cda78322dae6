import Mathlib.Algebra.BigOperators.Group.List.Basic
import OaiCu.NrRlc.AmRun

/-!
# RLC AM: what `rx_size` counts

`rx_size` goes up when a PDU is stored and down when the data of a PDU is freed after
reassembly; PDUs are taken off `rx_list` without looking at it. The count is right as long
as all PDUs of an SN are delivered together.
-/

namespace OaiCu.NrRlc

/-- The bytes a PDU still holds. -/
def Pdu.heldSize (p : Pdu) : ℤ := if p.data.isSome then p.size else 0

/-- The sizes of the PDUs whose data has not been delivered. -/
def heldSize (l : List Pdu) : ℤ := (l.map Pdu.heldSize).sum

@[simp] theorem heldSize_nil : heldSize [] = 0 := rfl

theorem heldSize_append (a b : List Pdu) : heldSize (a ++ b) = heldSize a + heldSize b := by
  simp [heldSize]

theorem heldSize_of_none {l : List Pdu} (h : ∀ p ∈ l, p.data = none) : heldSize l = 0 := by
  refine List.sum_eq_zero fun x hx => ?_
  obtain ⟨p, hp, rfl⟩ := List.mem_map.mp hx
  simp [Pdu.heldSize, h p hp]

theorem heldSize_orderedInsert {r : Pdu → Pdu → Prop} [DecidableRel r] (p : Pdu) (l : List Pdu) :
    heldSize (l.orderedInsert r p) = p.heldSize + heldSize l := by
  have := ((List.perm_orderedInsert r p l).map Pdu.heldSize).sum_eq
  simpa [heldSize] using this

/-- The PDUs of an SN are delivered all together. -/
def DeliveredTogether (l : List Pdu) : Prop :=
  ∀ p ∈ l, ∀ q ∈ l, p.sn = q.sn → (p.data = none ↔ q.data = none)

theorem DeliveredTogether.sublist {l l' : List Pdu} (h : DeliveredTogether l)
    (hs : l'.Sublist l) : DeliveredTogether l' :=
  fun p hp q hq => h p (hs.subset hp) q (hs.subset hq)

/-- All PDUs of an SN that is not delivered have their data. -/
theorem DeliveredTogether.data_ne_none {l : List Pdu} {x : ℤ} (h : DeliveredTogether l)
    (hx : sduDelivered l x = false) {p : Pdu} (hp : p ∈ l) (hpx : p.sn = x) : p.data ≠ none := by
  have hmem : ∀ {l : List Pdu}, p ∈ l → sduDelivered l x = false →
      ∃ q ∈ l, q.sn = x ∧ q.data ≠ none := by
    intro l hp hx
    induction l with
    | nil => cases hp
    | cons q l ih =>
        by_cases hq : q.sn = x
        · rw [sduDelivered_cons_self hq] at hx
          exact ⟨q, List.mem_cons_self, hq, fun hd => by simp [hd] at hx⟩
        · rcases List.mem_cons.mp hp with rfl | hp
          · exact absurd hpx hq
          · rw [sduDelivered_cons_ne hq] at hx
            obtain ⟨r, hr, h2⟩ := ih hp hx
            exact ⟨r, List.mem_cons_of_mem _ hr, h2⟩
  obtain ⟨q, hq, hqx, hqd⟩ := hmem hp hx
  exact fun hpd => hqd ((h p hp q hq (hpx.trans hqx.symm)).mp hpd)

theorem deliveredTogether_orderedInsert {r : Pdu → Pdu → Prop} [DecidableRel r] {p : Pdu}
    {l : List Pdu} (h : DeliveredTogether l) (hp : p.data ≠ none)
    (hfresh : sduDelivered l p.sn = false) : DeliveredTogether (l.orderedInsert r p) := by
  intro a ha b hb hab
  rcases List.mem_orderedInsert r |>.mp ha with hap | hal <;>
    rcases List.mem_orderedInsert r |>.mp hb with hbp | hbl
  · rw [hap, hbp]
  · rw [hap] at hab ⊢
    exact iff_of_false hp (h.data_ne_none hfresh hbl hab.symm)
  · rw [hbp] at hab ⊢
    exact iff_of_false (h.data_ne_none hfresh hal hab) hp
  · exact h a hal b hbl hab

/-! ## Delivery -/

section Delivery

variable {M b x : ℤ} {l : List Pdu}

/-- The run of a full SDU has all its data. -/
theorem data_ne_none_of_sduFull (h : DeliveredTogether l) (hf : sduFull l x = true) {p : Pdu}
    (hp : p ∈ l) (hpx : p.sn = x) : p.data ≠ none := by
  apply h.data_ne_none _ hp hpx
  unfold sduFull at hf
  unfold sduDelivered
  split at hf
  · cases hf
  · rename_i q t hq
    split at hf
    · cases hf
    · rename_i hn
      exact Bool.eq_false_iff.mpr hn

/-- Delivery takes the size of the run off what is held. -/
theorem heldSize_mapRun (h : DeliveredTogether l) (hf : sduFull l x = true) :
    heldSize (mapRun x Pdu.freeData l) = heldSize l - runSize l x := by
  have hrun : heldSize (runSn x l) = runSize l x := by
    unfold heldSize runSize
    congr 1
    refine List.map_congr_left fun p hp => ?_
    have hmem : p ∈ l := by
      rw [split_run x l]
      exact List.mem_append_left _ (List.mem_append_right _ hp)
    have := data_ne_none_of_sduFull h hf hmem (runSn_sn hp)
    simp [Pdu.heldSize, Option.isSome_iff_ne_none.mpr this]
  have hfreed : heldSize ((runSn x l).map Pdu.freeData) = 0 := by
    refine heldSize_of_none fun p hp => ?_
    obtain ⟨q, -, rfl⟩ := List.mem_map.mp hp
    rfl
  have hl := congrArg heldSize (split_run x l)
  rw [heldSize_append, heldSize_append, hrun] at hl
  rw [mapRun, heldSize_append, heldSize_append, hfreed]
  omega

/-- The run that is delivered is all there is of its SN, as the list is sorted. -/
theorem deliveredTogether_mapRun (h : DeliveredTogether l) (hsort : l.Pairwise (posLe M b)) :
    DeliveredTogether (mapRun x Pdu.freeData l) := by
  have key : ∀ p ∈ mapRun x Pdu.freeData l, (p.sn = x → p.data = none) ∧ (p.sn ≠ x → p ∈ l) := by
    intro p hp
    have hl := split_run x l
    simp only [mapRun, List.mem_append, List.mem_map] at hp
    rcases hp with (hp | ⟨q, hq, rfl⟩) | hp
    · refine ⟨fun hpx => ?_, fun _ => ?_⟩
      · have := List.mem_takeWhile_imp hp
        simp [hpx] at this
      · rw [hl]
        exact List.mem_append_left _ (List.mem_append_left _ hp)
    · exact ⟨fun _ => rfl, fun hne => absurd (runSn_sn hq) hne⟩
    · refine ⟨fun hpx => absurd hpx (sn_ne_of_mem_after_run hsort p hp), fun _ => ?_⟩
      rw [hl]
      exact List.mem_append_right _ hp
  intro p hp q hq hpq
  by_cases hpx : p.sn = x
  · exact iff_of_true ((key p hp).1 hpx) ((key q hq).1 (hpq ▸ hpx))
  · exact h p ((key p hp).2 hpx) q ((key q hq).2 (hpq ▸ hpx)) hpq

/-- What is taken off at the head is delivered. -/
theorem heldSize_popDelivered (fuel : ℕ) (h : DeliveredTogether l) :
    heldSize (popDelivered M fuel l b).1 = heldSize l ∧
      (popDelivered M fuel l b).1.Sublist l := by
  induction fuel generalizing l b with
  | zero => exact ⟨rfl, List.Sublist.refl _⟩
  | succ fuel ih =>
      cases l with
      | nil => exact ⟨rfl, List.Sublist.refl _⟩
      | cons p l =>
          rw [popDelivered]
          split
          · rename_i hp
            obtain ⟨hpd, hpb⟩ := Bool.and_eq_true_iff.mp hp
            replace hpd : p.data = none := by simpa using hpd
            replace hpb : p.sn = b := of_decide_eq_true hpb
            have hsub : (l.dropWhile fun q => q.sn = b).Sublist (p :: l) :=
              (List.dropWhile_sublist _).cons p
            obtain ⟨hsize, hs⟩ := @ih ((b + 1) % M) _ (h.sublist hsub)
            refine ⟨?_, hs.trans hsub⟩
            have hgone : heldSize (p :: l.takeWhile fun q => q.sn = b) = 0 := by
              refine heldSize_of_none fun q hq => ?_
              rcases List.mem_cons.mp hq with rfl | hq
              · exact hpd
              · refine (h p List.mem_cons_self q
                  (List.mem_cons_of_mem _ (List.takeWhile_sublist _ |>.subset hq)) ?_).mp hpd
                rw [hpb]
                have := List.mem_takeWhile_imp hq
                simp only [decide_eq_true_eq] at this
                exact this.symm
            have hsplit : p :: l = (p :: l.takeWhile fun q => q.sn = b) ++
                l.dropWhile fun q => q.sn = b := by
              rw [List.cons_append, List.takeWhile_append_dropWhile]
            rw [hsize]
            conv_rhs => rw [hsplit, heldSize_append, hgone, zero_add]
          · exact ⟨rfl, List.Sublist.refl _⟩

end Delivery

/-! ## The count along a run -/

/-- The call does not store a PDU for an SN that `sdu_delivered` reports as delivered. -/
def NotYetDelivered (e : AmEntity) : Op → Prop
  | .recvPdu buffer => ∀ h, decodeDataPdu e.cfg buffer = some h → accepted e.cfg e.rx h = true →
      sduDelivered e.rx.rxList h.sn = false
  | _ => True

/-- `rx_size` is the size of what is held. -/
structure AmRx.SizeInv (rx : AmRx) : Prop where
  rxSize_eq : rx.rxSize = heldSize rx.rxList
  together : DeliveredTogether rx.rxList

section SizeInv

variable {cfg : AmConfig} {rx : AmRx}

theorem sizeInv_init : AmRx.SizeInv {} where
  rxSize_eq := rfl
  together := by simp [DeliveredTogether]

/-- The count only depends on `rx_size` and `rx_list`. -/
theorem AmRx.SizeInv.congr {rx' : AmRx} (h : rx.SizeInv) (hsize : rx'.rxSize = rx.rxSize)
    (hlist : rx'.rxList = rx.rxList) : rx'.SizeInv :=
  ⟨by rw [hsize, hlist, h.rxSize_eq], by rw [hlist]; exact h.together⟩

theorem sizeInv_storePdu (h : rx.SizeInv) {d : DataPdu}
    (hfresh : sduDelivered rx.rxList d.sn = false) : (storePdu cfg rx d).SizeInv := by
  refine ⟨?_, deliveredTogether_orderedInsert h.together (by simp [newPdu]) hfresh⟩
  simp only [storePdu, pduListAdd]
  rw [heldSize_orderedInsert, h.rxSize_eq]
  simp only [Pdu.heldSize, newPdu, Option.isSome_some, if_true]
  omega

theorem sizeInv_stopTReassembly (h : rx.SizeInv) : (stopTReassembly cfg rx).SizeInv := by
  unfold stopTReassembly
  split
  · exact h.congr rfl rfl
  · exact h

theorem sizeInv_startTReassembly (h : rx.SizeInv) (tCurrent : ℕ) (sn : ℤ) :
    (startTReassembly cfg tCurrent rx sn).SizeInv := by
  unfold startTReassembly
  split
  · exact h.congr rfl rfl
  · exact h

theorem sizeInv_receptionActions {tCurrent : ℕ} {x : ℤ} (h : rx.SizeInv)
    (hinv : (raiseNextHighest cfg rx x).Inv cfg) :
    (receptionActions cfg tCurrent rx x).1.SizeInv := by
  have hraise : (raiseNextHighest cfg rx x).SizeInv := by
    unfold raiseNextHighest
    split
    · exact h.congr rfl rfl
    · exact h
  unfold receptionActions
  generalize raiseNextHighest cfg rx x = rx at hinv hraise
  simp only
  refine sizeInv_startTReassembly (sizeInv_stopTReassembly ?_) tCurrent _
  split
  · rename_i hfull
    have h1 : (amReassembleAndDeliver rx x).1.SizeInv := by
      refine ⟨?_, deliveredTogether_mapRun hraise.together hinv.sorted⟩
      simp only [amReassembleAndDeliver]
      rw [heldSize_mapRun hraise.together hfull, hraise.rxSize_eq]
    have h2 : (advanceHighestStatus cfg (amReassembleAndDeliver rx x).1 x).SizeInv := by
      unfold advanceHighestStatus
      split
      · exact h1.congr rfl rfl
      · exact h1
    simp only [advanceRxNext]
    split
    · obtain ⟨hsize, hsub⟩ := @heldSize_popDelivered cfg.snModulus
        (advanceHighestStatus cfg (amReassembleAndDeliver rx x).1 x).rxNext _
        (advanceHighestStatus cfg (amReassembleAndDeliver rx x).1 x).rxList.length h2.together
      exact ⟨by simp only [hsize, h2.rxSize_eq], h2.together.sublist hsub⟩
    · exact h2
  · exact hraise

theorem sizeInv_triggerStatus (h : rx.SizeInv) (p : Bool) : (triggerStatus p rx).SizeInv := by
  unfold triggerStatus
  split
  · exact h.congr rfl rfl
  · exact h

theorem sizeInv_amStep {e e' : AmEntity} {op : Op} {events : List Event} (h : e.rx.SizeInv)
    (hinv : e.rx.Inv e.cfg) (hop : NotYetDelivered e op)
    (hs : amStep e op = .ok (e', events)) : e'.rx.SizeInv := by
  obtain ⟨hcfg, ⟨b, t, hrx⟩ | ⟨buffer, p, f, rfl, hf, hacc, hrx, -⟩ | ⟨now, -, hrx⟩ | hrx⟩ :=
    amStep_rx hs
  · rw [hrx]
    exact h.congr rfl rfl
  · have hw := decodeDataPdu_wf hf
    rw [hrx]
    exact sizeInv_triggerStatus (sizeInv_receptionActions (sizeInv_storePdu h (hop f hf hacc))
      (inv_storePdu hinv hw.sn_nonneg hw.sn_lt (hinv.rel_lt_of_accepted hw hacc))) p
  · rw [hrx]
    unfold checkTReassembly
    split
    · refine sizeInv_startTReassembly ?_ _ _
      exact h.congr rfl rfl
    · exact h
  · rw [hrx]
    exact sizeInv_init

end SizeInv

/-- **What `rx_size` counts.** As long as no PDU is stored for an SN that is delivered
already, `rx_size` is the size of the PDUs whose data has not been delivered, and 0 if there
are none. -/
theorem rx_size_accounting (cfg : AmConfig) (ops : List RxOp)
    (h : Machine.Along amStep NotYetDelivered (newAmEntity cfg) (ops.map RxOp.op)) :
    ∃ e events, amRun (newAmEntity cfg) (ops.map RxOp.op) = .ok (e, events) ∧
      e.rx.rxSize = heldSize e.rx.rxList ∧ (e.rx.rxList = [] → e.rx.rxSize = 0) := by
  obtain ⟨e, events, hrun, -, -, -⟩ :=
    @amRun_rxOps (fun _ => True) cfg trivial (fun _ _ _ => trivial) ops
  have hI : e.rx.SizeInv ∧ e.rx.Inv e.cfg :=
    @Machine.run_invariant _ _ _ _ amStep NotYetDelivered
      (fun e => e.rx.SizeInv ∧ e.rx.Inv e.cfg)
      (fun e op e' events hI hop hs =>
        ⟨sizeInv_amStep hI.1 hI.2 hop hs, inv_amStep hI.2 hs⟩)
      _ _ _ _ ⟨sizeInv_init, inv_init⟩ h hrun
  refine ⟨e, events, hrun, hI.1.rxSize_eq, fun hnil => ?_⟩
  rw [hI.1.rxSize_eq, hnil, heldSize_nil]

/-- A check that what is accepted is not delivered yet. -/
def notYetDeliveredCheck (e : AmEntity) : Op → Bool
  | .recvPdu buffer => (decodeDataPdu e.cfg buffer).all fun h =>
      !accepted e.cfg e.rx h || !sduDelivered e.rx.rxList h.sn
  | _ => true

theorem notYetDelivered_of_check (e : AmEntity) (op : Op) (h : notYetDeliveredCheck e op = true) :
    NotYetDelivered e op := by
  cases op with
  | recvPdu buffer =>
      intro f hf hacc
      rw [notYetDeliveredCheck, hf, Option.all_some, hacc, Bool.not_true, Bool.false_or] at h
      exact Bool.eq_false_of_not_eq_true' h
  | _ => trivial

/-- SN 1, the first bytes of SN 2, bytes from the middle of SN 3, and SN 0. -/
def heldOps : List RxOp :=
  [.recvPdu [0x80, 0x01, 0xaa], .recvPdu [0x90, 0x02, 0xbb, 0xbc],
    .recvPdu [0xb0, 0x03, 0x00, 0x02, 0xcc], .recvPdu [0x80, 0x00, 0xdd]]

/-- SNs 0 and 1 are delivered and freed, and three bytes are held. -/
theorem rx_size_accounting_held :
    (∀ e events, amRun (newAmEntity testConfig) (heldOps.map RxOp.op) = .ok (e, events) →
      e.rx.rxSize = 3 ∧ e.rx.rxList.map (·.sn) = [2, 3]) ∧
    ∃ e events, amRun (newAmEntity testConfig) (heldOps.map RxOp.op) = .ok (e, events) ∧
      e.rx.rxSize = heldSize e.rx.rxList ∧ (e.rx.rxList = [] → e.rx.rxSize = 0) := by
  refine ⟨?_, rx_size_accounting testConfig heldOps
    (Machine.along_of_check notYetDelivered_of_check (by decide +kernel))⟩
  rintro e events ⟨⟩
  decide +kernel

/-- SN 1 is received and delivered, then a segment of SN 1 behind its end, then SN 0: both
SNs are passed and freed, but the byte of the segment stays counted. -/
theorem rx_size_not_zero_on_empty_list :
    ¬ ∀ (cfg : AmConfig) (ops : List RxOp), ∃ e events,
      amRun (newAmEntity cfg) (ops.map RxOp.op) = .ok (e, events) ∧
        e.rx.rxSize = heldSize e.rx.rxList := by
  intro h
  obtain ⟨e, events, hrun, hsize⟩ := h testConfig
    [.recvPdu [0x80, 0x01, 0xaa], .recvPdu [0xb0, 0x01, 0x00, 0x05, 0xbb],
      .recvPdu [0x80, 0x00, 0xcc]]
  have hend : ∀ r, amRun (newAmEntity testConfig)
      ([RxOp.recvPdu [0x80, 0x01, 0xaa], .recvPdu [0xb0, 0x01, 0x00, 0x05, 0xbb],
        .recvPdu [0x80, 0x00, 0xcc]].map RxOp.op) = .ok r →
      r.1.rx.rxList = [] ∧ r.1.rx.rxSize = 1 := by
    rintro r ⟨⟩
    decide +kernel
  obtain ⟨hlist, hone⟩ := hend _ hrun
  rw [hlist, hone] at hsize
  cases hsize

end OaiCu.NrRlc
