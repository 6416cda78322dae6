import OaiCu.NrMac.DlHarq
import OaiCu.Lib.Machine

/-!
# One call on the downlink processes

Every call keeps the lists right and stops on none of their assertions, and the NDI of a process is
toggled exactly by the calls that free it.
-/

namespace OaiCu.NrMac.DlUe

/-- The lists and the processes of a UE agree. -/
def Parts (harqRoundMax n : ℕ) (u : DlUe) (av fb rt : List ℕ) : Prop :=
  Partition harqRoundMax n u.dlHarq (DlHarq.isWaiting ∘ u.harqProcesses)
    (DlHarq.round ∘ u.harqProcesses) av fb rt

/-- What holds of the processes at any time: one under way remembers its own id, and those that are
not configured are idle. -/
structure Inv (harqRoundMax n : ℕ) (u : DlUe) (av fb rt : List ℕ) : Prop where
  parts : u.Parts harqRoundMax n av fb rt
  saved : ∀ p ∈ fb ++ rt, (u.harqProcesses p).schedPdsch.dlHarqPid = some p
  fresh : ∀ p, n ≤ p → (u.harqProcesses p).isWaiting = false ∧ (u.harqProcesses p).round = 0

/-- What holds between two calls: moreover no RBs are left from the last slot. -/
def Right (harqRoundMax n : ℕ) (u : DlUe) : Prop :=
  u.schedPdsch.rbSize = 0 ∧ ∃ av fb rt, u.Inv harqRoundMax n av fb rt

/-- The NDI is toggled for the processes that came to the free ones, and for no other. -/
def Toggled (n : ℕ) (u u' : DlUe) (av av' : List ℕ) : Prop :=
  ∀ p, (u'.harqProcesses p).ndi =
    ((u.harqProcesses p).ndi ^^ decide (p < n ∧ p ∉ av ∧ p ∈ av'))

variable {harqRoundMax n : ℕ} {u u' u'' : DlUe} {av av' av'' fb rt xs : List ℕ} {p frame slot : ℕ}
  {harq : DlHarq}

/-! ## Processes that are changed -/

theorem waiting_setHarq (u : DlUe) (p : ℕ) (harq : DlHarq) :
    DlHarq.isWaiting ∘ (u.setHarq p harq).harqProcesses =
      Function.update (DlHarq.isWaiting ∘ u.harqProcesses) p harq.isWaiting :=
  Function.comp_update _ _ _ _

theorem round_setHarq (u : DlUe) (p : ℕ) (harq : DlHarq) :
    DlHarq.round ∘ (u.setHarq p harq).harqProcesses =
      Function.update (DlHarq.round ∘ u.harqProcesses) p harq.round :=
  Function.comp_update _ _ _ _

theorem setHarq_self (u : DlUe) (p : ℕ) (harq : DlHarq) :
    (u.setHarq p harq).harqProcesses p = harq :=
  Function.update_self _ _ _

theorem setHarq_of_ne {q : ℕ} (h : q ≠ p) (u : DlUe) (harq : DlHarq) :
    (u.setHarq p harq).harqProcesses q = u.harqProcesses q :=
  Function.update_of_ne h _ _

theorem parts_of_setHarq {v : DlUe} (hv : v.harqProcesses = (u.setHarq p harq).harqProcesses)
    (h : Partition harqRoundMax n v.dlHarq
      (Function.update (DlHarq.isWaiting ∘ u.harqProcesses) p harq.isWaiting)
      (Function.update (DlHarq.round ∘ u.harqProcesses) p harq.round) av fb rt) :
    v.Parts harqRoundMax n av fb rt := by
  rw [Parts, hv, waiting_setHarq, round_setHarq]
  exact h

/-- A process that remembers its id may be changed as long as it does. -/
theorem saved_setHarq (h : ∀ q ∈ xs, q ≠ p → (u.harqProcesses q).schedPdsch.dlHarqPid = some q)
    (hp : harq.schedPdsch.dlHarqPid = some p) :
    ∀ q ∈ xs, ((u.setHarq p harq).harqProcesses q).schedPdsch.dlHarqPid = some q := by
  intro q hq
  rcases eq_or_ne q p with rfl | hne
  · rw [setHarq_self, hp]
  · rw [setHarq_of_ne hne]
    exact h q hq hne

theorem fresh_setHarq (hp : p < n)
    (h : ∀ q, n ≤ q → (u.harqProcesses q).isWaiting = false ∧ (u.harqProcesses q).round = 0) :
    ∀ q, n ≤ q → ((u.setHarq p harq).harqProcesses q).isWaiting = false ∧
      ((u.setHarq p harq).harqProcesses q).round = 0 := by
  intro q hq
  rw [setHarq_of_ne (Nat.ne_of_gt (Nat.lt_of_lt_of_le hp hq))]
  exact h q hq

/-! ## The NDI -/

theorem ndi_setHarq (h : harq.ndi = (u.harqProcesses p).ndi) (q : ℕ) :
    ((u.setHarq p harq).harqProcesses q).ndi = (u.harqProcesses q).ndi := by
  rcases eq_or_ne q p with rfl | hne
  · rw [setHarq_self, h]
  · rw [setHarq_of_ne hne]

/-- Nothing is freed and no NDI is toggled. -/
theorem toggled_of_eq (hndi : ∀ p, (u'.harqProcesses p).ndi = (u.harqProcesses p).ndi)
    (hav : ∀ p ∈ av', p ∈ av) : Toggled n u u' av av' := by
  intro p
  rw [hndi, decide_eq_false fun h => h.2.1 (hav p h.2.2), Bool.xor_false]

/-- Two calls that only free processes. -/
theorem Toggled.trans (h : Toggled n u u' av av') (h' : Toggled n u' u'' av' av'')
    (hsub : ∀ p ∈ av, p ∈ av') (hsub' : ∀ p ∈ av', p ∈ av'') : Toggled n u u'' av av'' := by
  intro p
  rw [h' p, h p]
  by_cases h1 : p ∈ av
  · simp [h1, hsub p h1]
  · by_cases h2 : p ∈ av'
    · simp [h1, h2, hsub' p h2]
    · simp [h1, h2]

/-- One process is freed, and its NDI is toggled. -/
theorem toggled_free (hp : p < n) (hav : p ∉ av)
    (hndi : ∀ q, (u'.harqProcesses q).ndi = ((u.harqProcesses q).ndi ^^ decide (q = p))) :
    Toggled n u u' av (av ++ [p]) := by
  intro q
  rw [hndi q]
  rcases eq_or_ne q p with rfl | hne
  · simp [hp, hav]
  · simp [hne]

/-! ## HARQ bits -/

/-- What the handling of the first process that waits gives. -/
structure Handled (harqRoundMax n : ℕ) (u u' : DlUe) (av fb av' rt' : List ℕ) : Prop where
  inv : u'.Inv harqRoundMax n av' fb rt'
  sched : u'.schedPdsch = u.schedPdsch
  sub : ∀ p ∈ av, p ∈ av'
  toggled : Toggled n u u' av av'

section Feedback

variable (h : u.Inv harqRoundMax n av (p :: fb) rt)
include h

theorem Inv.saved_head : (u.harqProcesses p).schedPdsch.dlHarqPid = some p :=
  h.saved p (List.mem_append_left _ List.mem_cons_self)

/-- The first process that waits is done. -/
theorem Inv.done (harq : DlHarq) (hw : harq.isWaiting = false) (hr : harq.round = 0)
    (hs : harq.schedPdsch = (u.harqProcesses p).schedPdsch)
    (hndi : harq.ndi = !(u.harqProcesses p).ndi) :
    ∃ f, u.dlHarq.feedback.removeFront = .ok f ∧ ∀ errors,
      Handled harqRoundMax n u { ((u.setFeedback f).addAvailable p).setHarq p harq with
        errors := errors } av fb (av ++ [p]) rt := by
  obtain ⟨f, hf, hparts⟩ := h.parts.done rfl
  have hp : p < n := h.parts.lt_of_feedback List.mem_cons_self
  refine ⟨f, hf, fun errors => ⟨⟨?_, ?_, ?_⟩, rfl, fun q hq => List.mem_append_left _ hq, ?_⟩⟩
  · refine parts_of_setHarq (u := u) rfl ?_
    rw [hw, hr]
    exact hparts
  · refine saved_setHarq (u := u) (fun q hq _ => h.saved q ?_) (hs ▸ h.saved_head)
    exact List.mem_cons_of_mem p hq
  · exact fresh_setHarq (u := u) hp h.fresh
  · refine toggled_free hp
      (fun ha => h.parts.not_feedback_of_available ha List.mem_cons_self) fun q => ?_
    rcases eq_or_ne q p with rfl | hne
    · simp [setHarq, hndi]
    · simp [setHarq, hne, setFeedback, addAvailable]

/-- The first process that waits is to be sent again. -/
theorem Inv.retry (harq : DlHarq) (hw : harq.isWaiting = false)
    (hr : harq.round = (u.harqProcesses p).round + 1)
    (hlt : ¬ (u.harqProcesses p).round + 1 ≥ harqRoundMax)
    (hs : harq.schedPdsch = (u.harqProcesses p).schedPdsch)
    (hndi : harq.ndi = (u.harqProcesses p).ndi) :
    ∃ f, u.dlHarq.feedback.removeFront = .ok f ∧
      Handled harqRoundMax n u (((u.setFeedback f).addRetrans p).setHarq p harq) av fb av
        (rt ++ [p]) := by
  obtain ⟨f, hf, hparts⟩ := h.parts.retry rfl hlt
  have hp : p < n := h.parts.lt_of_feedback List.mem_cons_self
  refine ⟨f, hf, ⟨?_, ?_, ?_⟩, rfl, fun _ hq => hq, ?_⟩
  · refine parts_of_setHarq (u := u) rfl ?_
    rw [hw, hr]
    exact hparts
  · refine saved_setHarq (u := u) (fun q hq hne => h.saved q ?_) (hs ▸ h.saved_head)
    rw [← List.append_assoc, List.mem_append, List.mem_singleton] at hq
    exact List.mem_cons_of_mem p (hq.resolve_right hne)
  · exact fresh_setHarq (u := u) hp h.fresh
  · exact toggled_of_eq (ndi_setHarq (u := u) hndi) fun _ hq => hq

/-- The feedback of the first process that waits. -/
theorem Inv.handle (success : Bool) :
    ∃ f, u.dlHarq.feedback.removeFront = .ok f ∧ ∃ av' rt',
      Handled harqRoundMax n u ((u.setFeedback f).handleDlHarq harqRoundMax p success) av fb
        av' rt' := by
  simp only [handleDlHarq]
  cases success with
  | true =>
      obtain ⟨f, hf, hinv⟩ := h.done { u.harqProcesses p with
        feedbackSlot := 65535, isWaiting := false, round := 0, ndi := !(u.harqProcesses p).ndi }
        rfl rfl rfl rfl
      exact ⟨f, hf, av ++ [p], rt, hinv u.errors⟩
  | false =>
      by_cases hmax : (u.harqProcesses p).round + 1 ≥ harqRoundMax
      · obtain ⟨f, hf, hinv⟩ := h.done { u.harqProcesses p with
          feedbackSlot := 65535, isWaiting := false, round := 0
          ndi := !(u.harqProcesses p).ndi } rfl rfl rfl rfl
        refine ⟨f, hf, av ++ [p], rt, ?_⟩
        have hmax' : ((u.setFeedback f).harqProcesses p).round + 1 ≥ harqRoundMax := hmax
        simp only [Bool.false_eq_true, if_false, if_pos hmax']
        exact hinv (u.errors + 1)
      · obtain ⟨f, hf, hinv⟩ := h.retry { u.harqProcesses p with
          feedbackSlot := 65535, isWaiting := false
          round := (u.harqProcesses p).round + 1 } rfl rfl hmax rfl rfl
        refine ⟨f, hf, av, rt ++ [p], ?_⟩
        have hmax' : ¬ ((u.setFeedback f).harqProcesses p).round + 1 ≥ harqRoundMax := hmax
        simp only [Bool.false_eq_true, if_false, if_neg hmax']
        exact hinv

end Feedback

/-- The state has come from another one by handling processes that waited. -/
def Came (harqRoundMax n : ℕ) (u : DlUe) (av : List ℕ) (u' : DlUe) (fb' : List ℕ) : Prop :=
  ∃ av' rt', Handled harqRoundMax n u u' av fb' av' rt'

theorem Handled.trans {av₁ rt₁ fb₁ fb₂ : List ℕ} (h : Handled harqRoundMax n u u' av fb₁ av₁ rt₁)
    (h' : Came harqRoundMax n u' av₁ u'' fb₂) : Came harqRoundMax n u av u'' fb₂ := by
  obtain ⟨av₂, rt₂, h'⟩ := h'
  exact ⟨av₂, rt₂, h'.inv, h'.sched.trans h.sched, fun q hq => h'.sub q (h.sub q hq),
    h.toggled.trans h'.toggled h.sub h'.sub⟩

theorem Inv.came (h : u.Inv harqRoundMax n av fb rt) : Came harqRoundMax n u av u fb :=
  ⟨av, rt, h, rfl, fun _ hq => hq, toggled_of_eq (fun _ => rfl) fun _ hq => hq⟩

/-- The search ends; what it finds is the first process that waits. -/
theorem findHarq_right (frame slot : ℕ) {fuel : ℕ} (h : u.Inv harqRoundMax n av fb rt)
    (hlt : fb.length < fuel) :
    ∃ r, findHarq harqRoundMax frame slot fuel u = .ok r ∧
      ∃ fb', Came harqRoundMax n u av r.2 fb' ∧ (∀ p, r.1 = some p → ∃ fb₁, fb' = p :: fb₁) := by
  induction fb generalizing fuel u av rt with
  | nil =>
      obtain ⟨fuel, rfl⟩ := Nat.exists_eq_add_one_of_ne_zero (Nat.ne_of_gt hlt)
      rw [findHarq, h.parts.head_feedback]
      exact ⟨_, rfl, [], h.came, nofun⟩
  | cons p fb ih =>
      obtain ⟨fuel, rfl⟩ := Nat.exists_eq_add_one_of_ne_zero (Nat.ne_zero_of_lt hlt)
      rw [findHarq, h.parts.head_feedback]
      simp only [List.head?_cons]
      split
      · obtain ⟨f, hf, av', rt', hhandled⟩ := h.handle false
        rw [hf]
        obtain ⟨r, hr, fb', hcame, hfound⟩ := ih hhandled.inv (Nat.lt_of_succ_lt_succ hlt)
        exact ⟨r, hr, fb', hhandled.trans hcame, hfound⟩
      · split
        · exact ⟨_, rfl, p :: fb, h.came, nofun⟩
        · exact ⟨_, rfl, p :: fb, h.came, fun q hq => ⟨fb, by rw [Option.some.inj hq]⟩⟩

/-- The HARQ bits of a PUCCH. -/
theorem harqBits_right (frame slot : ℕ) (bits : List Bool) (h : u.Inv harqRoundMax n av fb rt) :
    ∃ u', harqBits harqRoundMax frame slot u bits = .ok u' ∧
      ∃ fb', Came harqRoundMax n u av u' fb' := by
  induction bits generalizing u av fb rt with
  | nil => exact ⟨u, rfl, fb, h.came⟩
  | cons success bits ih =>
      have hfuel : fb.length < u.dlHarq.feedback.len + 1 := by
        have h1 := h.parts.feedback.length_le
        have h2 := h.parts.feedback.len
        omega
      obtain ⟨⟨found, u₁⟩, hfind, fb₁, ⟨av₁, rt₁, h₁⟩, hfound⟩ := findHarq_right frame slot h hfuel
      rw [harqBits, hfind]
      cases found with
      | none => exact ⟨u₁, rfl, fb₁, av₁, rt₁, h₁⟩
      | some p =>
          obtain ⟨fb₁, rfl⟩ := hfound p rfl
          have hwait : (u₁.harqProcesses p).isWaiting = true := h₁.inv.parts.waiting_head
          obtain ⟨f, hf, av₂, rt₂, h₂⟩ := h₁.inv.handle success
          obtain ⟨u', hu', fb', hcame⟩ := ih h₂.inv
          refine ⟨u', ?_, fb', h₁.trans (h₂.trans hcame)⟩
          change (if (!(u₁.harqProcesses p).isWaiting) = true then _ else _) = _
          rw [hwait, if_neg (by decide), hf]
          exact hu'

/-! ## The configuration -/

theorem nrofHarqProcesses_pos (pdsch : Option NrofHarqProcesses) : 0 < nrofHarqProcesses pdsch := by
  rcases pdsch with - | (- | - | - | - | - | -) <;> decide

theorem addNewNrUe_right (harqRoundMax : ℕ) (pdsch : Option NrofHarqProcesses) :
    ∃ u, addNewNrUe pdsch = .ok u ∧ u.Right harqRoundMax (nrofHarqProcesses pdsch) := by
  obtain ⟨hall, hlen⟩ := NrList.holds_range (nrofHarqProcesses pdsch)
  refine ⟨_, rfl, rfl, List.range (nrofHarqProcesses pdsch), [], [], ?_, ?_, fun _ _ => ⟨rfl, rfl⟩⟩
  · exact
      { available := hall
        feedback := NrList.holds_create _
        retrans := NrList.holds_create _
        sizes := ⟨hlen, List.length_replicate, List.length_replicate⟩
        perm := by rw [List.append_nil, List.append_nil]
        waiting_iff := fun _ _ => iff_of_false Bool.false_ne_true List.not_mem_nil
        round_available := fun _ _ => rfl
        round_retrans := fun _ h => absurd h List.not_mem_nil
        round_feedback := fun _ h => absurd h List.not_mem_nil }
  · exact fun _ h => absurd h List.not_mem_nil

theorem Inv.len_eq (h : u.Inv harqRoundMax n av fb rt) : u.dlHarq.available.len = n :=
  h.parts.available.len.trans h.parts.sizes.1

/-- The lists have the same length, and they have been created. -/
theorem createDlHarqList_eq (h : u.Inv harqRoundMax n av fb rt) (hn : 0 < n)
    (pdsch : Option NrofHarqProcesses) :
    u.createDlHarqList pdsch =
      if n = nrofHarqProcesses pdsch then .ok u
      else if ¬ nrofHarqProcesses pdsch > n then .error .resizeSmaller
      else .ok { u with dlHarq :=
        { available := (List.range' n (nrofHarqProcesses pdsch - n)).foldl NrList.addTail
            (u.dlHarq.available.resize (nrofHarqProcesses pdsch))
          feedback := u.dlHarq.feedback.resize (nrofHarqProcesses pdsch)
          retrans := u.dlHarq.retrans.resize (nrofHarqProcesses pdsch) } } := by
  have hlens : n = u.dlHarq.feedback.len ∧ n = u.dlHarq.retrans.len := by
    rw [h.parts.feedback.len, h.parts.retrans.len]
    exact ⟨h.parts.sizes.2.1.symm, h.parts.sizes.2.2.symm⟩
  rw [createDlHarqList]
  rw [h.len_eq, if_neg (not_not.mpr hlens), if_neg (Nat.ne_of_gt hn)]

/-- The number of processes does not get smaller. -/
theorem createDlHarqList_right (h : u.Inv harqRoundMax n av fb rt) (hn : 0 < n)
    {pdsch : Option NrofHarqProcesses} (hgrow : n ≤ nrofHarqProcesses pdsch) :
    ∃ u', u.createDlHarqList pdsch = .ok u' ∧ u'.schedPdsch = u.schedPdsch ∧ ∃ av',
      u'.Inv harqRoundMax (nrofHarqProcesses pdsch) av' fb rt ∧ Toggled n u u' av av' := by
  rw [createDlHarqList_eq h hn]
  by_cases heq : n = nrofHarqProcesses pdsch
  · rw [if_pos heq]
    exact ⟨u, rfl, rfl, av, heq ▸ h, toggled_of_eq (fun _ => rfl) fun _ hq => hq⟩
  · have hgt : nrofHarqProcesses pdsch > n := Nat.lt_of_le_of_ne hgrow heq
    rw [if_neg heq, if_neg (not_not.mpr hgt)]
    refine ⟨_, rfl, rfl, _, ⟨h.parts.grow hgrow h.fresh, h.saved,
      fun p hp => h.fresh p (Nat.le_trans hgrow hp)⟩, fun p => ?_⟩
    -- the new processes are free without having been used
    have hnew : ¬ (p < n ∧ p ∉ av ∧
        p ∈ av ++ List.range' n (nrofHarqProcesses pdsch - n)) := by
      rintro ⟨hp, hav, hmem⟩
      have := List.mem_range'_1.mp ((List.mem_append.mp hmem).resolve_left hav)
      omega
    rw [decide_eq_false hnew, Bool.xor_false]

/-- A smaller number of processes stops the gNB. -/
theorem createDlHarqList_smaller (h : u.Inv harqRoundMax n av fb rt) (hn : 0 < n)
    {pdsch : Option NrofHarqProcesses} (hlt : nrofHarqProcesses pdsch < n) :
    u.createDlHarqList pdsch = .error .resizeSmaller := by
  rw [createDlHarqList_eq h hn, if_neg (Nat.ne_of_gt hlt), if_pos (Nat.not_lt_of_gt hlt)]

/-! ## The scheduler -/

/-- `pf_dl` chooses a process that is to be sent again, with the size it was sent with, or it has
seen a free one. -/
structure Chosen (u u' : DlUe) (av rt : List ℕ) : Prop where
  free : u'.schedPdsch.dlHarqPid = none → av ≠ []
  again : ∀ p, u'.schedPdsch.dlHarqPid = some p → p ∈ rt
  tbSize : ∀ p, u'.schedPdsch.dlHarqPid = some p →
    (u'.harqProcesses p).schedPdsch.tbSize = u'.schedPdsch.tbSize

theorem Inv.pfDl (h : u.Inv harqRoundMax n av fb rt) (hidle : u.schedPdsch.rbSize = 0)
    (s : DlSlot) :
    (u.pfDl s).Inv harqRoundMax n av fb rt ∧
      (∀ p, ((u.pfDl s).harqProcesses p).ndi = (u.harqProcesses p).ndi) ∧
      (s.ulFailure = true → u.pfDl s = u) ∧
      ((u.pfDl s).schedPdsch.rbSize ≠ 0 → Chosen u (u.pfDl s) av rt) := by
  rw [DlUe.pfDl]
  by_cases hreached : (!s.reached || s.ulFailure) = true
  · rw [if_pos hreached]
    exact ⟨h, fun _ => rfl, fun _ => rfl, fun hrb => absurd hidle hrb⟩
  · rw [if_neg hreached]
    have hfail : s.ulFailure ≠ true := fun hf => hreached (by rw [hf, Bool.or_true])
    cases rt with
    | nil =>
        rw [h.parts.head_retrans]
        cases s.newData with
        | none => exact ⟨⟨h.parts, h.saved, h.fresh⟩, fun _ => rfl, fun hf => absurd hf hfail,
            fun hrb => absurd hidle hrb⟩
        | some data =>
            simp only [List.head?_nil, h.parts.head_available, Option.isNone_iff_eq_none,
              List.head?_eq_none_iff]
            split
            · exact ⟨⟨h.parts, h.saved, h.fresh⟩, fun _ => rfl, fun hf => absurd hf hfail,
                fun hrb => absurd hidle hrb⟩
            · rename_i hav
              exact ⟨⟨h.parts, h.saved, h.fresh⟩, fun _ => rfl, fun hf => absurd hf hfail,
                fun _ => ⟨fun _ => hav, nofun, nofun⟩⟩
    | cons p rt =>
        rw [h.parts.head_retrans]
        have hmem : p ∈ p :: rt := List.mem_cons_self
        have hp : p < n := h.parts.lt_of_retrans hmem
        have hsaved : (u.harqProcesses p).schedPdsch.dlHarqPid = some p :=
          h.saved p (List.mem_append_right _ hmem)
        have hself : ∀ {α : Type} (f : DlHarq → α),
            Function.update (f ∘ u.harqProcesses) p (f (u.harqProcesses p)) =
              f ∘ u.harqProcesses := fun f => Function.update_eq_self p _
        -- only what the process remembers changes
        have hinv : ∀ info sched, info.dlHarqPid = some p → Inv harqRoundMax n
            { u.setHarq p { u.harqProcesses p with schedPdsch := info } with schedPdsch := sched }
            av fb (p :: rt) := fun info sched hinfo =>
          ⟨parts_of_setHarq (u := u) rfl (by rw [hself, hself]; exact h.parts),
            saved_setHarq (u := u) (fun q hq _ => h.saved q hq) hinfo,
            fresh_setHarq (u := u) hp h.fresh⟩
        have hndi : ∀ info q, ((u.setHarq p { u.harqProcesses p with
            schedPdsch := info }).harqProcesses q).ndi = (u.harqProcesses q).ndi :=
          fun info => ndi_setHarq rfl
        simp only [List.head?_cons]
        cases s.retrans with
        | none => exact ⟨⟨h.parts, h.saved, h.fresh⟩, fun _ => rfl, fun hf => absurd hf hfail,
            fun hrb => absurd hidle hrb⟩
        | some room =>
            simp only [allocateDlRetransmission]
            cases room.pucchAllocation with
            | none => exact ⟨hinv _ _ hsaved, hndi _, fun hf => absurd hf hfail,
                fun hrb => absurd hidle hrb⟩
            | some alloc =>
                refine ⟨hinv _ _ hsaved, hndi _, fun hf => absurd hf hfail, fun _ => ⟨?_, ?_, ?_⟩⟩
                · exact fun hnone => by cases hsaved.symm.trans hnone
                · exact fun q hq => Option.some.inj (hsaved.symm.trans hq) ▸ hmem
                · intro q hq
                  obtain rfl : p = q := Option.some.inj (hsaved.symm.trans hq)
                  change (((u.setHarq p _).harqProcesses p).schedPdsch).tbSize = _
                  rw [setHarq_self]

/-- The process that was taken is sent, or its round has no redundancy version. -/
theorem sendTaken_right {l : HarqLists} {av' rt' : List ℕ} (h : u.Inv harqRoundMax n av fb rt)
    (hfb : p ∉ fb) (hp : p < n) (hav : ∀ q ∈ av', q ∈ av) (hrt : ∀ q ∈ rt', q ∈ rt)
    (hround : (u.harqProcesses p).round ≠ 0 → p ∈ rt) (hl : l.feedback = u.dlHarq.feedback)
    (htb : (u.harqProcesses p).round ≠ 0 →
      (u.harqProcesses p).schedPdsch.tbSize = u.schedPdsch.tbSize)
    (hparts : Partition harqRoundMax n { l with feedback := u.dlHarq.feedback.addTail p }
        (Function.update (DlHarq.isWaiting ∘ u.harqProcesses) p true)
        (DlHarq.round ∘ u.harqProcesses) av' (fb ++ [p]) rt') (s : DlSlot)
    (hu' : u' = { u with
      dlHarq := l
      schedPdsch := { u.schedPdsch with dlHarqPid := some p } }) :
    (u'.sendTaken s p = .error .roundIndex ∧ 4 < harqRoundMax) ∨
      ∃ u'' out, u'.sendTaken s p = .ok (u'', out) ∧ u''.schedPdsch.rbSize = 0 ∧
        u''.Inv harqRoundMax n av' (fb ++ [p]) rt' ∧ Toggled n u u'' av av' := by
  subst hu'
  have hwait : (u.harqProcesses p).isWaiting = false :=
    Bool.eq_false_iff.mpr fun hw => hfb ((h.parts.waiting_iff p hp).mp hw)
  simp only [sendTaken, hwait, Bool.false_eq_true, if_false]
  cases hrv : nrRvRoundMap[(u.harqProcesses p).round]? with
  | none => exact .inl ⟨rfl, h.parts.lt_of_rv_none hp hrv⟩
  | some rvIndex =>
      dsimp only
      rw [if_neg fun hne => hne.2 (htb hne.1)]
      refine .inr ⟨_, _, rfl, rfl, ⟨?_, ?_, ?_⟩, ?_⟩
      · refine parts_of_setHarq (u := u) rfl ?_
        have hself : Function.update (DlHarq.round ∘ u.harqProcesses) p (u.harqProcesses p).round =
            DlHarq.round ∘ u.harqProcesses := Function.update_eq_self p _
        simp only [hself]
        rw [← hl] at hparts
        exact hparts
      · refine saved_setHarq (u := u) (fun q hq hne => h.saved q ?_) ?_
        · rw [List.append_assoc, List.mem_append, List.mem_append, List.mem_singleton] at hq
          rcases hq with hq | hq | hq
          · exact List.mem_append_left _ hq
          · exact absurd hq hne
          · exact List.mem_append_right _ (hrt q hq)
        · by_cases h0 : (u.harqProcesses p).round = 0
          · simp [h0]
          · simpa [h0] using h.saved p (List.mem_append_right _ (hround h0))
      · exact fresh_setHarq (u := u) hp h.fresh
      · exact toggled_of_eq (ndi_setHarq (u := u) rfl) hav

/-- A slot stops on no assertion but the one for the index of the round. -/
theorem nrScheduleUeSpec_right (h : u.Inv harqRoundMax n av fb rt)
    (hidle : u.schedPdsch.rbSize = 0) (s : DlSlot) :
    (u.nrScheduleUeSpec s = .error .roundIndex ∧ 4 < harqRoundMax) ∨
      ∃ u' out, u.nrScheduleUeSpec s = .ok (u', out) ∧ u'.schedPdsch.rbSize = 0 ∧
        ∃ av' fb' rt', u'.Inv harqRoundMax n av' fb' rt' ∧ Toggled n u u' av av' := by
  rw [nrScheduleUeSpec]
  by_cases hdl : (!s.dlSlot) = true
  · rw [if_pos hdl]
    exact .inr ⟨u, [], rfl, hidle, av, fb, rt, h, toggled_of_eq (fun _ => rfl) fun _ hq => hq⟩
  · rw [if_neg hdl]
    obtain ⟨hinv, hndi, hfail, hchosen⟩ := h.pfDl hidle s
    generalize u.pfDl s = v at hinv hndi hfail hchosen
    have htoggled : Toggled n u v av av := toggled_of_eq hndi fun _ hq => hq
    dsimp only
    by_cases hskip : (s.ulFailure || decide (v.schedPdsch.rbSize = 0)) = true
    · rw [if_pos hskip]
      refine .inr ⟨v, [], rfl, ?_, av, fb, rt, hinv, htoggled⟩
      rw [Bool.or_eq_true, decide_eq_true_eq] at hskip
      exact hskip.elim (fun hf => hfail hf ▸ hidle) id
    · rw [if_neg hskip]
      have hrb : v.schedPdsch.rbSize ≠ 0 := fun h0 => hskip (by rw [h0]; simp)
      have hc := hchosen hrb
      obtain ⟨p, l, av', rt', htake, hl, hp, hfb, hround, hav, hrt, hpid, hparts⟩ :=
        hinv.parts.take v.schedPdsch.dlHarqPid hc.again hc.free
      have htb : (v.harqProcesses p).round ≠ 0 →
          (v.harqProcesses p).schedPdsch.tbSize = v.schedPdsch.tbSize := by
        intro hr
        cases hsel : v.schedPdsch.dlHarqPid with
        | none =>
            -- a free process is at round 0
            rw [hsel, HarqLists.take, hinv.parts.head_available] at htake
            obtain ⟨q, av₁, rfl⟩ := List.exists_cons_of_ne_nil (hc.free hsel)
            obtain ⟨a, ha, -⟩ := hinv.parts.send_new
            simp only [List.head?_cons, ha] at htake
            obtain rfl : q = p := congrArg Prod.fst (Except.ok.inj htake)
            exact absurd (hinv.parts.round_available q List.mem_cons_self) hr
        | some q =>
            obtain rfl : p = q := hpid q hsel
            exact hc.tbSize p hsel
      rw [htake]
      refine (sendTaken_right hinv hfb hp hav hrt hround hl htb hparts s rfl).imp_right ?_
      rintro ⟨u'', out, hok, hrb0, hinv'', htog⟩
      refine ⟨u'', out, hok, hrb0, av', fb ++ [p], rt', hinv'', fun q => ?_⟩
      rw [htog q, hndi q]

end OaiCu.NrMac.DlUe
