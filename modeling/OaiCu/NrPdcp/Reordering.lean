import Mathlib.Data.List.Range
import OaiCu.Lib.Lists
import OaiCu.NrPdcp.Entity

/-!
# The reordering buffer of a PDCP entity

`rx_list` is kept sorted by COUNT. Both delivery loops take SDUs from its head: the SDUs of
consecutive COUNTs, and on expiry of t-Reordering first all SDUs below `rx_reord`.
-/

namespace OaiCu.NrPdcp

/-- `rx_list` in the order of COUNT, without duplicates. -/
def CountSorted (l : List PdcpSdu) : Prop := l.Pairwise fun a b => a.count < b.count

theorem sduInList_eq_false {l : List PdcpSdu} {count : ℕ} :
    sduInList l count = false ↔ ∀ sdu ∈ l, sdu.count ≠ count := by
  simp [sduInList]

theorem mem_sduListAdd {l : List PdcpSdu} {sdu a : PdcpSdu} :
    a ∈ sduListAdd l sdu ↔ a = sdu ∨ a ∈ l :=
  List.mem_orderedInsert _

theorem length_sduListAdd (l : List PdcpSdu) (sdu : PdcpSdu) :
    (sduListAdd l sdu).length = l.length + 1 :=
  List.orderedInsert_length _ l sdu

/-- A new COUNT keeps the list sorted. -/
theorem countSorted_sduListAdd {l : List PdcpSdu} {sdu : PdcpSdu} (hl : CountSorted l)
    (hne : ∀ s ∈ l, s.count ≠ sdu.count) : CountSorted (sduListAdd l sdu) := by
  refine Lists.pairwise_orderedInsert hl (fun _ _ _ => lt_trans) (fun _ _ h => h) ?_
  intro s hs h
  exact lt_of_le_of_ne (not_lt.1 h) (hne s hs)

/-! ## The delivery loops -/

/-- The loop delivers the front of the list. -/
theorem deliverFrom_append : ∀ (l : List PdcpSdu) (count : ℕ),
    (deliverFrom count l).2.2 ++ (deliverFrom count l).2.1 = l
  | [], _ => rfl
  | cur :: l, count => by
      rw [deliverFrom]
      split
      · exact congrArg (cur :: ·) (deliverFrom_append l _)
      · rfl

/-- What the delivery loop does to a sorted list whose COUNTs are not below `count`. -/
structure Delivers (count : ℕ) (r : ℕ × List PdcpSdu × List PdcpSdu) : Prop where
  counts : r.2.2.map (·.count) = List.range' count r.2.2.length
  last : r.1 = (count + r.2.2.length) % 2 ^ 32
  bound : count + r.2.2.length ≤ 2 ^ 32
  above : ∀ s ∈ r.2.1, count + r.2.2.length < s.count

theorem deliverFrom_spec : ∀ {l : List PdcpSdu} {count : ℕ}, CountSorted l → count < 2 ^ 32 →
    (∀ s ∈ l, count ≤ s.count ∧ s.count < 2 ^ 32) → Delivers count (deliverFrom count l)
  | [], count, _, hc, _ =>
      ⟨rfl, (Nat.mod_eq_of_lt hc).symm, hc.le, fun s h => absurd h List.not_mem_nil⟩
  | cur :: l, count, hs, hc, hl => by
      obtain ⟨hcur, hs⟩ := List.pairwise_cons.1 hs
      have h0 := hl cur List.mem_cons_self
      rw [deliverFrom]
      split
      · rename_i heq
        by_cases hw : count + 1 = 2 ^ 32
        · -- the last COUNT of all: nothing is behind it
          have hnil : l = [] := by
            refine List.eq_nil_iff_forall_not_mem.2 fun s h => ?_
            have := hcur s h
            have := hl s (List.mem_cons_of_mem _ h)
            omega
          subst hnil
          exact ⟨by simp [deliverFrom, heq], by simp [deliverFrom], by simp [deliverFrom, hw],
            fun s h => absurd h List.not_mem_nil⟩
        · rw [Nat.mod_eq_of_lt (by omega)]
          have ih := @deliverFrom_spec l (count + 1) hs (by omega) fun s h =>
            ⟨heq ▸ hcur s h, (hl s (List.mem_cons_of_mem _ h)).2⟩
          generalize deliverFrom (count + 1) l = r at ih ⊢
          obtain ⟨count', rest, delivered⟩ := r
          obtain ⟨h2, h3, h4, h5⟩ := ih
          simp only at h2 h3 h4 h5
          have hlen : count + (cur :: delivered).length = count + 1 + delivered.length := by
            rw [List.length_cons]
            omega
          refine ⟨?_, ?_, ?_, ?_⟩
          · simp only [List.map_cons, h2, List.length_cons, List.range'_succ, ← heq]
          · simp only [h3, hlen]
          · simp only [hlen, h4]
          · simpa only [hlen] using h5
      · rename_i hne
        refine ⟨rfl, (Nat.mod_eq_of_lt hc).symm, hc.le, fun s h => ?_⟩
        rcases List.mem_cons.1 h with rfl | h
        · exact lt_of_le_of_ne h0.1 hne
        · exact lt_of_le_of_lt h0.1 (hcur s h)

/-- The list `l` was cut at `bound`, which was reached from `start`: what is below was
delivered, `e'` keeps the rest. -/
structure Flushed (start bound : ℕ) (l : List PdcpSdu) (delivered : List PdcpSdu)
    (e' : PdcpEntity) : Prop where
  start_le : start ≤ bound
  reached : bound = start ∨ ∃ s ∈ delivered, bound = s.count + 1
  bound_le : bound ≤ 2 ^ 32
  deliv : e'.rxDeliv = bound % 2 ^ 32
  split : l = delivered ++ e'.rxList
  below : ∀ s ∈ delivered, s.count < bound
  above : ∀ s ∈ e'.rxList, bound < s.count

/-- The outputs for the SDUs that are delivered. -/
def sduOutputs (delivered : List PdcpSdu) : List Output :=
  delivered.map fun sdu => .deliverSdu sdu.buffer

theorem deliverSdus_spec {e : PdcpEntity} {count : ℕ} (hs : CountSorted e.rxList)
    (hc : count < 2 ^ 32) (hl : ∀ s ∈ e.rxList, count ≤ s.count ∧ s.count < 2 ^ 32) :
    ∃ bound delivered, Flushed count bound e.rxList delivered (deliverSdus e count).1 ∧
      (deliverSdus e count).2 = sduOutputs delivered := by
  obtain ⟨h2, h3, h4, h5⟩ := deliverFrom_spec hs hc hl
  refine ⟨count + (deliverFrom count e.rxList).2.2.length, (deliverFrom count e.rxList).2.2,
    ⟨Nat.le_add_right _ _, ?_, h4, h3, (deliverFrom_append _ _).symm, ?_, h5⟩, rfl⟩
  · rcases List.eq_nil_or_concat' (deliverFrom count e.rxList).2.2 with hnil | ⟨ds, s, hds⟩
    · exact .inl (by simp [hnil])
    · right
      refine ⟨s, by simp [hds], ?_⟩
      rw [hds, List.map_append, List.length_append, List.length_singleton, List.range'_concat] at h2
      have := List.append_inj_right' h2 rfl
      simp only [List.map_cons, List.map_nil, List.cons.injEq, and_true, Nat.one_mul] at this
      rw [hds, List.length_append, List.length_singleton]
      omega
  · intro s hsm
    have : s.count ∈ (deliverFrom count e.rxList).2.2.map (·.count) := List.mem_map_of_mem hsm
    rw [h2, List.mem_range'_1] at this
    exact this.2

@[simp] theorem deliverSdus_rxNext (e : PdcpEntity) (count : ℕ) :
    (deliverSdus e count).1.rxNext = e.rxNext := rfl

@[simp] theorem deliverSdus_rxReord (e : PdcpEntity) (count : ℕ) :
    (deliverSdus e count).1.rxReord = e.rxReord := rfl

@[simp] theorem deliverSdus_tReorderingStart (e : PdcpEntity) (count : ℕ) :
    (deliverSdus e count).1.tReorderingStart = e.tReorderingStart := rfl

/-- The timer that runs after a call: it runs because there is a gap, and either it was
started by the call or it ran before. -/
structure TimerFrom (e e' : PdcpEntity) : Prop where
  gap : e'.tReorderingStart ≠ 0 → e'.rxDeliv < e'.rxReord
  since : e'.tReorderingStart ≠ 0 →
    e'.rxReord = e'.rxNext ∨ (e.tReorderingStart ≠ 0 ∧ e'.rxReord = e.rxReord)
  reord : e'.rxReord = e'.rxNext ∨ e'.rxReord = e.rxReord

/-- The end of `nr_pdcp_entity_recv_pdu` sets the timer and nothing else. -/
theorem restart_spec (e : PdcpEntity) :
    (startReordering (stopReordering e)).rxList = e.rxList ∧
      (startReordering (stopReordering e)).rxDeliv = e.rxDeliv ∧
      (startReordering (stopReordering e)).rxNext = e.rxNext ∧
      TimerFrom e (startReordering (stopReordering e)) := by
  by_cases h1 : e.tReorderingStart ≠ 0 ∧ e.rxDeliv ≥ e.rxReord
  · rw [stopReordering, if_pos h1, startReordering]
    split
    · rename_i h2
      exact ⟨rfl, rfl, rfl, fun _ => h2.2, fun _ => .inl rfl, .inl rfl⟩
    · exact ⟨rfl, rfl, rfl, fun h => absurd rfl h, fun h => absurd rfl h, .inr rfl⟩
  · rw [stopReordering, if_neg h1, startReordering]
    split
    · rename_i h2
      exact ⟨rfl, rfl, rfl, fun _ => h2.2, fun _ => .inl rfl, .inl rfl⟩
    · refine ⟨rfl, rfl, rfl, fun h => ?_, fun h => .inr ⟨h, rfl⟩, .inr rfl⟩
      exact not_le.1 fun hle => h1 ⟨h, hle⟩

theorem flushed_congr {start bound : ℕ} {l delivered : List PdcpSdu} {e e' : PdcpEntity}
    (h : Flushed start bound l delivered e) (hl : e'.rxList = e.rxList)
    (hd : e'.rxDeliv = e.rxDeliv) : Flushed start bound l delivered e' :=
  ⟨h.start_le, h.reached, h.bound_le, hd ▸ h.deliv, hl ▸ h.split, h.below, hl ▸ h.above⟩

/-- The buffer as the window checks leave it. -/
structure Buffered (e : PdcpEntity) : Prop where
  sorted : CountSorted e.rxList
  deliv_lt : e.rxDeliv < 2 ^ 32
  reord_lt : e.rxReord < 2 ^ 32
  next_lt : e.rxNext < 2 ^ 32
  counts : ∀ s ∈ e.rxList, e.rxDeliv < s.count ∧ s.count < 2 ^ 32
  gap : e.tReorderingStart ≠ 0 → e.rxDeliv < e.rxReord

/-- The buffer is about these variables only. -/
theorem Buffered.of_eq {e e' : PdcpEntity} (hb : Buffered e) (h1 : e'.rxList = e.rxList)
    (h2 : e'.rxDeliv = e.rxDeliv) (h3 : e'.rxReord = e.rxReord) (h4 : e'.rxNext = e.rxNext)
    (h5 : e'.tReorderingStart = e.tReorderingStart) : Buffered e' where
  sorted := h1 ▸ hb.sorted
  deliv_lt := h2 ▸ hb.deliv_lt
  reord_lt := h3 ▸ hb.reord_lt
  next_lt := h4 ▸ hb.next_lt
  counts := by
    rw [h1, h2]
    exact hb.counts
  gap := by
    rw [h2, h3, h5]
    exact hb.gap

/-- The entity with the new SDU in its list, before anything is delivered. -/
def withSdu (e : PdcpEntity) (sdu : PdcpSdu) (size : ℕ) : PdcpEntity :=
  { e with
    rxList := sduListAdd e.rxList sdu
    rxSize := e.rxSize + size
    rxNext := if sdu.count ≥ e.rxNext then (sdu.count + 1) % 2 ^ 32 else e.rxNext }

theorem storeSdu_eq (e : PdcpEntity) (sdu : PdcpSdu) (size : ℕ) :
    storeSdu e sdu size =
      if sdu.count = e.rxDeliv then
        (startReordering (stopReordering (deliverSdus (withSdu e sdu size) e.rxDeliv).1),
          (deliverSdus (withSdu e sdu size) e.rxDeliv).2)
      else (startReordering (stopReordering (withSdu e sdu size)), []) := by
  change (let r := if sdu.count = e.rxDeliv then deliverSdus (withSdu e sdu size) e.rxDeliv
    else (withSdu e sdu size, []); (startReordering (stopReordering r.1), r.2)) = _
  split <;> rfl

/-- A new SDU: it is sorted in, and delivery starts if it was the one awaited. -/
theorem storeSdu_spec {e : PdcpEntity} {sdu : PdcpSdu} (size : ℕ) (hb : Buffered e)
    (hc : e.rxDeliv ≤ sdu.count ∧ sdu.count < 2 ^ 32)
    (hne : ∀ s ∈ e.rxList, s.count ≠ sdu.count) :
    ∃ bound delivered,
      Flushed e.rxDeliv bound (sduListAdd e.rxList sdu) delivered (storeSdu e sdu size).1 ∧
      (storeSdu e sdu size).2 = sduOutputs delivered ∧
      (storeSdu e sdu size).1.rxNext =
        (if sdu.count ≥ e.rxNext then (sdu.count + 1) % 2 ^ 32 else e.rxNext) ∧
      TimerFrom e (storeSdu e sdu size).1 := by
  have hsorted := countSorted_sduListAdd hb.sorted hne
  rw [storeSdu_eq]
  split
  · have hl : ∀ s ∈ sduListAdd e.rxList sdu, e.rxDeliv ≤ s.count ∧ s.count < 2 ^ 32 := by
      intro s hs
      rcases mem_sduListAdd.1 hs with rfl | hs
      · exact hc
      · exact ⟨(hb.counts s hs).1.le, (hb.counts s hs).2⟩
    obtain ⟨bound, delivered, hf, hout⟩ :=
      @deliverSdus_spec (withSdu e sdu size) e.rxDeliv hsorted hb.deliv_lt hl
    obtain ⟨h1, h2, h3, h4⟩ := restart_spec (deliverSdus (withSdu e sdu size) e.rxDeliv).1
    exact ⟨bound, delivered, flushed_congr hf h1 h2, hout, h3, h4.gap, h4.since, h4.reord⟩
  · rename_i hcount
    obtain ⟨h1, h2, h3, h4⟩ := restart_spec (withSdu e sdu size)
    refine ⟨e.rxDeliv, [], ⟨le_rfl, .inl rfl, hb.deliv_lt.le, ?_, h1.symm, by simp, ?_⟩, rfl, h3,
      h4.gap, h4.since, h4.reord⟩
    · rw [Nat.mod_eq_of_lt hb.deliv_lt]
      exact h2
    · intro s hs
      rw [h1] at hs
      rcases mem_sduListAdd.1 hs with rfl | hs
      · omega
      · exact (hb.counts s hs).1

/-- The entity on expiry, when all SDUs below `rx_reord` are delivered. -/
def belowReord (e : PdcpEntity) : PdcpEntity :=
  { e with
    tReorderingStart := 0
    rxList := e.rxList.dropWhile (·.count < e.rxReord)
    rxSize := e.rxSize -
      ((e.rxList.takeWhile (·.count < e.rxReord)).map (·.buffer.length)).sum }

/-- In a sorted list, what is not dropped is not below. -/
theorem le_of_mem_dropWhile {l : List PdcpSdu} (hs : CountSorted l) {reord : ℕ} :
    ∀ s ∈ l.dropWhile (·.count < reord), reord ≤ s.count := by
  intro s hsm
  cases hd : l.dropWhile (·.count < reord) with
  | nil => simp [hd] at hsm
  | cons a r =>
      have ha : ¬ a.count < reord := by
        have := List.head?_dropWhile_not (fun s : PdcpSdu => decide (s.count < reord)) l
        simpa [hd] using this
      have hs' : CountSorted (a :: r) := hd ▸ hs.sublist (List.dropWhile_sublist _)
      rw [hd] at hsm
      rcases List.mem_cons.1 hsm with rfl | hsm
      · exact not_lt.1 ha
      · exact (not_lt.1 ha).trans ((List.pairwise_cons.1 hs').1 s hsm).le

/-- The condition on which `check_t_reordering` goes on. -/
def Expired (cfg : PdcpConfig) (e : PdcpEntity) : Prop :=
  cfg.tReordering ≠ -1 ∧ e.tReorderingStart ≠ 0 ∧
    Int.bmod (e.tReorderingStart + cfg.tReordering) (2 ^ 32) % 2 ^ 64 < e.tCurrent

instance (cfg : PdcpConfig) (e : PdcpEntity) : Decidable (Expired cfg e) :=
  inferInstanceAs (Decidable (_ ∧ _))

theorem checkTReordering_of_not_expired {cfg : PdcpConfig} {e : PdcpEntity}
    (h : ¬ Expired cfg e) : checkTReordering cfg e = (e, []) := by
  rw [checkTReordering]
  split
  · rfl
  · rename_i hinf
    split
    · rfl
    · rename_i hrun
      exact absurd ⟨hinf, fun hzero => hrun (.inl hzero), not_le.1 fun hle => hrun (.inr hle)⟩ h

/-- The entity when `check_t_reordering` gets to starting the timer again. -/
def atRestart (e : PdcpEntity) : PdcpEntity := (deliverSdus (belowReord e) e.rxReord).1

theorem checkTReordering_of_expired {cfg : PdcpConfig} {e : PdcpEntity} (h : Expired cfg e) :
    checkTReordering cfg e =
      (startReordering (atRestart e),
        sduOutputs (e.rxList.takeWhile (·.count < e.rxReord)) ++
          (deliverSdus (belowReord e) e.rxReord).2) := by
  obtain ⟨hinf, hstart, hlt⟩ := h
  rw [checkTReordering, if_neg hinf, if_neg]
  · rfl
  · rintro (hzero | hle)
    · exact hstart hzero
    · exact absurd hlt (not_lt.2 hle)

/-- Expiry of t-Reordering. -/
theorem checkTReordering_flushed {cfg : PdcpConfig} {e : PdcpEntity} (hb : Buffered e)
    (h : Expired cfg e) :
    ∃ bound delivered,
      Flushed e.rxReord bound e.rxList delivered (checkTReordering cfg e).1 ∧
      (checkTReordering cfg e).2 = sduOutputs delivered ∧
      (checkTReordering cfg e).1.rxNext = e.rxNext ∧
      TimerFrom e (checkTReordering cfg e).1 := by
  rw [checkTReordering_of_expired h]
  have hsub : (e.rxList.dropWhile (·.count < e.rxReord)).Sublist e.rxList :=
    List.dropWhile_sublist _
  obtain ⟨bound, delivered, hf, hout⟩ :=
    @deliverSdus_spec (belowReord e) e.rxReord (hb.sorted.sublist hsub) hb.reord_lt fun s hs =>
      ⟨le_of_mem_dropWhile hb.sorted s hs, (hb.counts s (hsub.subset hs)).2⟩
  have htimer := restart_spec (atRestart e)
  rw [stopReordering, if_neg (by simp [atRestart, belowReord])] at htimer
  obtain ⟨h1, h2, h3, h4⟩ := htimer
  refine ⟨bound, e.rxList.takeWhile (·.count < e.rxReord) ++ delivered,
    ⟨hf.start_le, ?_, hf.bound_le, ?_, ?_, ?_, ?_⟩, ?_, h3, h4.gap, ?_, h4.reord⟩
  · exact hf.reached.imp_right fun ⟨s, hs, h⟩ => ⟨s, List.mem_append_right _ hs, h⟩
  · exact h2.trans hf.deliv
  · have hsplit : e.rxList.dropWhile (·.count < e.rxReord) = delivered ++ (atRestart e).rxList :=
      hf.split
    rw [h1, List.append_assoc, ← hsplit, List.takeWhile_append_dropWhile]
  · intro s hs
    rcases List.mem_append.1 hs with hs | hs
    · have := List.mem_takeWhile_imp hs
      have hlt : s.count < e.rxReord := by simpa using this
      exact hlt.trans_le hf.start_le
    · exact hf.below s hs
  · intro s hs
    exact hf.above s (h1 ▸ hs)
  · unfold sduOutputs at hout ⊢
    dsimp only
    rw [hout, List.map_append]
  · intro h
    exact (h4.since h).imp_right fun h => absurd rfl h.1

/-- Expiry of t-Reordering, or nothing. -/
theorem checkTReordering_spec (cfg : PdcpConfig) {e : PdcpEntity} (hb : Buffered e) :
    checkTReordering cfg e = (e, []) ∨
    (e.tReorderingStart ≠ 0 ∧ ∃ bound delivered,
      Flushed e.rxReord bound e.rxList delivered (checkTReordering cfg e).1 ∧
      (checkTReordering cfg e).2 = sduOutputs delivered ∧
      (checkTReordering cfg e).1.rxNext = e.rxNext ∧
      TimerFrom e (checkTReordering cfg e).1) := by
  by_cases h : Expired cfg e
  · exact .inr ⟨h.2.1, checkTReordering_flushed hb h⟩
  · exact .inl (checkTReordering_of_not_expired h)

/-! ## The buffer over the calls -/

theorem Flushed.lt_of_mem {start bound : ℕ} {l delivered : List PdcpSdu} {e' : PdcpEntity}
    (hf : Flushed start bound l delivered e') (hl : ∀ s ∈ l, s.count < 2 ^ 32) {s : PdcpSdu}
    (hs : s ∈ e'.rxList) : bound < 2 ^ 32 ∧ e'.rxDeliv = bound ∧ bound < s.count := by
  have h1 := hf.above s hs
  have h2 := hl s (hf.split ▸ List.mem_append_right _ hs)
  have h3 : bound < 2 ^ 32 := h1.trans h2
  exact ⟨h3, by rw [hf.deliv, Nat.mod_eq_of_lt h3], h1⟩

theorem Flushed.buffered {start bound : ℕ} {l delivered : List PdcpSdu} {e e' : PdcpEntity}
    (hf : Flushed start bound l delivered e') (hs : CountSorted l)
    (hl : ∀ s ∈ l, s.count < 2 ^ 32) (hn : e'.rxNext < 2 ^ 32) (hr : e.rxReord < 2 ^ 32)
    (ht : TimerFrom e e') : Buffered e' where
  sorted := by
    rw [hf.split] at hs
    exact (List.pairwise_append.1 hs).2.1
  deliv_lt := by
    rw [hf.deliv]
    exact Nat.mod_lt _ (by decide)
  reord_lt := by
    rcases ht.reord with h | h
    · exact h ▸ hn
    · exact h ▸ hr
  next_lt := hn
  counts := by
    intro s hs
    obtain ⟨-, hd, hlt⟩ := hf.lt_of_mem hl hs
    exact ⟨hd ▸ hlt, hl s (hf.split ▸ List.mem_append_right _ hs)⟩
  gap := ht.gap

theorem buffered_new : Buffered {} where
  sorted := List.Pairwise.nil
  deliv_lt := by decide
  reord_lt := by decide
  next_lt := by decide
  counts := fun s hs => absurd hs List.not_mem_nil
  gap := fun h => absurd rfl h

theorem mem_sduListAdd_lt {e : PdcpEntity} {sdu : PdcpSdu} (hb : Buffered e)
    (hc : sdu.count < 2 ^ 32) : ∀ s ∈ sduListAdd e.rxList sdu, s.count < 2 ^ 32 := by
  intro s hs
  rcases mem_sduListAdd.1 hs with rfl | hs
  · exact hc
  · exact (hb.counts s hs).2

theorem buffered_storeSdu {e : PdcpEntity} {sdu : PdcpSdu} (size : ℕ) (hb : Buffered e)
    (hc : e.rxDeliv ≤ sdu.count ∧ sdu.count < 2 ^ 32)
    (hne : ∀ s ∈ e.rxList, s.count ≠ sdu.count) : Buffered (storeSdu e sdu size).1 := by
  obtain ⟨bound, delivered, hf, -, hn, ht⟩ := storeSdu_spec size hb hc hne
  refine hf.buffered (countSorted_sduListAdd hb.sorted hne) (mem_sduListAdd_lt hb hc.2) ?_
    hb.reord_lt ht
  rw [hn]
  split
  · exact Nat.mod_lt _ (by decide)
  · exact hb.next_lt

theorem buffered_checkTReordering (cfg : PdcpConfig) {e : PdcpEntity} (hb : Buffered e) :
    Buffered (checkTReordering cfg e).1 := by
  rcases checkTReordering_spec cfg hb with h | ⟨-, bound, delivered, hf, -, hn, ht⟩
  · rw [h]
    exact hb
  · exact hf.buffered hb.sorted (fun s hs => (hb.counts s hs).2) (hn ▸ hb.next_lt) hb.reord_lt ht

end OaiCu.NrPdcp
