import OaiCu.NrMac.UlHarq
import OaiCu.Lib.Machine

/-!
# One call on the uplink processes

Every call keeps the lists right, and the only thing that may go wrong is that a new transmission
finds no free process.
-/

namespace OaiCu.NrMac.UlUe

/-- The lists and the processes of a UE agree. -/
def Parts (harqRoundMax : ℕ) (u : UlUe) (av fb rt : List ℕ) : Prop :=
  Partition harqRoundMax 16 u.ulHarq (UlHarq.isWaiting ∘ u.ulHarqProcesses)
    (UlHarq.round ∘ u.ulHarqProcesses) av fb rt

/-- What holds between two calls: a process under way remembers its own id, and a process that is
chosen but not yet sent is one to be sent again. -/
structure Inv (harqRoundMax : ℕ) (u : UlUe) (av fb rt : List ℕ) : Prop where
  parts : u.Parts harqRoundMax av fb rt
  saved : ∀ p ∈ fb ++ rt, (u.ulHarqProcesses p).schedPusch.ulHarqPid = some p
  pending : u.schedPusch.rbSize ≠ 0 → ∀ p, u.schedPusch.ulHarqPid = some p → p ∈ rt

/-- The lists are right for some contents. -/
def Right (harqRoundMax : ℕ) (u : UlUe) : Prop := ∃ av fb rt, u.Inv harqRoundMax av fb rt

variable {harqRoundMax : ℕ} {u u' : UlUe} {av fb rt xs : List ℕ} {p harqId : ℕ} {harq : UlHarq}

/-! ## Processes that are changed -/

theorem waiting_setHarq (u : UlUe) (p : ℕ) (harq : UlHarq) :
    UlHarq.isWaiting ∘ (u.setHarq p harq).ulHarqProcesses =
      Function.update (UlHarq.isWaiting ∘ u.ulHarqProcesses) p harq.isWaiting :=
  Function.comp_update _ _ _ _

theorem round_setHarq (u : UlUe) (p : ℕ) (harq : UlHarq) :
    UlHarq.round ∘ (u.setHarq p harq).ulHarqProcesses =
      Function.update (UlHarq.round ∘ u.ulHarqProcesses) p harq.round :=
  Function.comp_update _ _ _ _

theorem setHarq_self (u : UlUe) (p : ℕ) (harq : UlHarq) :
    (u.setHarq p harq).ulHarqProcesses p = harq :=
  Function.update_self _ _ _

theorem setHarq_setHarq (u : UlUe) (p : ℕ) (harq harq' : UlHarq) :
    (u.setHarq p harq).setHarq p harq' = u.setHarq p harq' := by
  simp only [setHarq, Function.update_idem]

theorem parts_of_setHarq {v : UlUe} (hv : v.ulHarqProcesses = (u.setHarq p harq).ulHarqProcesses)
    (h : Partition harqRoundMax 16 v.ulHarq
      (Function.update (UlHarq.isWaiting ∘ u.ulHarqProcesses) p harq.isWaiting)
      (Function.update (UlHarq.round ∘ u.ulHarqProcesses) p harq.round) av fb rt) :
    v.Parts harqRoundMax av fb rt := by
  rw [Parts, hv, waiting_setHarq, round_setHarq]
  exact h

/-- A process that remembers its id may be changed as long as it does. -/
theorem saved_setHarq (h : ∀ q ∈ xs, q ≠ p → (u.ulHarqProcesses q).schedPusch.ulHarqPid = some q)
    (hp : harq.schedPusch.ulHarqPid = some p) :
    ∀ q ∈ xs, ((u.setHarq p harq).ulHarqProcesses q).schedPusch.ulHarqPid = some q := by
  intro q hq
  rcases eq_or_ne q p with rfl | hne
  · rw [setHarq_self, hp]
  · simp only [setHarq, Function.update_of_ne hne]
    exact h q hq hne

theorem inv_addNewNrUe (harqRoundMax : ℕ) :
    addNewNrUe.Inv harqRoundMax (List.range 16) [] [] where
  parts :=
    { available := (NrList.holds_range 16).1
      feedback := NrList.holds_create 16
      retrans := NrList.holds_create 16
      sizes := ⟨(NrList.holds_range 16).2, rfl, rfl⟩
      perm := by rw [List.append_nil, List.append_nil]
      waiting_iff := fun _ _ => iff_of_false Bool.false_ne_true List.not_mem_nil
      round_available := fun _ _ => rfl
      round_retrans := fun _ h => absurd h List.not_mem_nil
      round_feedback := fun _ h => absurd h List.not_mem_nil }
  saved := fun _ h => absurd h List.not_mem_nil
  pending := fun h => absurd rfl h

/-! ## The CRC -/

section Feedback

variable (h : u.Inv harqRoundMax av (p :: fb) rt)
include h

theorem Inv.saved_head : (u.ulHarqProcesses p).schedPusch.ulHarqPid = some p :=
  h.saved p (List.mem_append_left _ List.mem_cons_self)

/-- The first process that waits is done: it comes to the free ones, at round 0. -/
theorem Inv.done (harq : UlHarq) (hw : harq.isWaiting = false) (hr : harq.round = 0)
    (hs : harq.schedPusch = (u.ulHarqProcesses p).schedPusch) :
    ∃ f, u.ulHarq.feedback.removeFront = .ok f ∧ ∀ errors bytes,
      { ((u.setFeedback f).setHarq p harq).addAvailable p with
        errors := errors, schedUlBytes := bytes }.Inv harqRoundMax (av ++ [p]) fb rt := by
  obtain ⟨f, hf, hparts⟩ := h.parts.done rfl
  refine ⟨f, hf, fun errors bytes => ⟨?_, ?_, h.pending⟩⟩
  · refine parts_of_setHarq (u := u) rfl ?_
    rw [hw, hr]
    exact hparts
  · refine saved_setHarq (u := u.setFeedback f) (fun q hq _ => h.saved q ?_)
      (hs ▸ h.saved_head)
    exact List.mem_cons_of_mem p hq

/-- The first process that waits is sent again: it comes to the ones for retransmission. -/
theorem Inv.retry (harq : UlHarq) (hw : harq.isWaiting = false)
    (hr : harq.round = (u.ulHarqProcesses p).round + 1)
    (hlt : ¬ (u.ulHarqProcesses p).round + 1 ≥ harqRoundMax)
    (hs : harq.schedPusch = (u.ulHarqProcesses p).schedPusch) :
    ∃ f, u.ulHarq.feedback.removeFront = .ok f ∧
      (((u.setFeedback f).setHarq p harq).addRetrans p).Inv harqRoundMax av fb (rt ++ [p]) := by
  obtain ⟨f, hf, hparts⟩ := h.parts.retry rfl hlt
  refine ⟨f, hf, ?_, ?_, fun hrb q hq => List.mem_append_left _ (h.pending hrb q hq)⟩
  · refine parts_of_setHarq (u := u) rfl ?_
    rw [hw, hr]
    exact hparts
  · refine saved_setHarq (u := u.setFeedback f) (fun q hq hne => h.saved q ?_)
      (hs ▸ h.saved_head)
    rw [← List.append_assoc, List.mem_append, List.mem_singleton] at hq
    exact List.mem_cons_of_mem p (hq.resolve_right hne)

/-- A transmission that has failed: the process is free again, or it is to be sent again. -/
theorem Inv.nack (harq : UlHarq) (hw : harq.isWaiting = false)
    (hr : harq.round = (u.ulHarqProcesses p).round)
    (hs : harq.schedPusch = (u.ulHarqProcesses p).schedPusch) :
    ∃ f, u.ulHarq.feedback.removeFront = .ok f ∧
      ∃ av' rt', (((u.setFeedback f).setHarq p harq).nack harqRoundMax p).Inv
          harqRoundMax av' fb rt' ∧
        rt' = if harq.round + 1 ≥ harqRoundMax then rt else rt ++ [p] := by
  have hself : ∀ f, ((u.setFeedback f).setHarq p harq).ulHarqProcesses p = harq :=
    fun f => setHarq_self _ _ _
  simp only [UlUe.nack, hself]
  by_cases hmax : harq.round + 1 ≥ harqRoundMax
  · simp only [if_pos hmax]
    obtain ⟨f, hf, hinv⟩ := h.done { harq with ndi := !harq.ndi, round := 0 } hw rfl hs
    refine ⟨f, hf, av ++ [p], rt, ?_, rfl⟩
    simp only [abortNrUlHarq, hself, setHarq_setHarq]
    exact hinv _ _
  · simp only [if_neg hmax]
    obtain ⟨f, hf, hinv⟩ := h.retry { harq with round := harq.round + 1 } hw
      (congrArg (· + 1) hr) (hr ▸ hmax) hs
    refine ⟨f, hf, av, rt ++ [p], ?_, rfl⟩
    simpa only [setHarq_setHarq] using hinv

end Feedback

/-- The loop ends at the process of the CRC, or with an empty list. -/
theorem skipTo_right (harqId : ℕ) {fuel : ℕ} (h : u.Inv harqRoundMax av fb rt)
    (hlt : fb.length < fuel) :
    ∃ r, skipTo harqRoundMax harqId fuel u = .ok r ∧
      ∃ av' fb' rt', r.2.Inv harqRoundMax av' fb' rt' ∧ r.1 = fb'.head? := by
  induction fb generalizing fuel u av rt with
  | nil =>
      obtain ⟨fuel, rfl⟩ := Nat.exists_eq_add_one_of_ne_zero (Nat.ne_of_gt hlt)
      rw [skipTo, h.parts.head_feedback]
      exact ⟨_, rfl, av, [], rt, h, rfl⟩
  | cons p fb ih =>
      obtain ⟨fuel, rfl⟩ := Nat.exists_eq_add_one_of_ne_zero (Nat.ne_zero_of_lt hlt)
      rw [skipTo, h.parts.head_feedback]
      change ∃ r, (if harqId = p then _ else _) = _ ∧ _
      split
      · exact ⟨_, rfl, av, p :: fb, rt, h, rfl⟩
      · obtain ⟨f, hf, av', rt', hinv, -⟩ := h.nack
          { u.ulHarqProcesses p with isWaiting := false } rfl rfl rfl
        rw [hf]
        exact ih hinv (Nat.lt_of_succ_lt_succ hlt)

/-- The CRC handler ends, stops on no assertion and keeps the lists right. -/
theorem handleNrUlHarq_right (h : u.Right harqRoundMax) (crc : CrcPdu) :
    ∃ u', u.handleNrUlHarq harqRoundMax crc = .ok u' ∧ u'.Right harqRoundMax := by
  obtain ⟨av, fb, rt, h⟩ := h
  have hfuel : fb.length < u.ulHarq.feedback.len + 1 := by
    have := h.parts.feedback.length_le
    have := h.parts.feedback.len
    omega
  obtain ⟨⟨found, u₁⟩, hskip, av₁, fb₁, rt₁, h₁, hfound⟩ := skipTo_right crc.harqId h hfuel
  simp only at h₁ hfound
  rw [handleNrUlHarq, hskip]
  cases fb₁ with
  | nil =>
      subst hfound
      exact ⟨u₁, rfl, av₁, [], rt₁, h₁⟩
  | cons p fb₁ =>
      subst hfound
      have hwait : (u₁.ulHarqProcesses p).isWaiting = true := h₁.parts.waiting_head
      change ∃ u', (u₁.ulHarq.feedback.removeFront >>= _) = _ ∧ _
      cases hstatus : crc.tbCrcStatus with
      | true =>
          obtain ⟨f, hf, av', rt', hinv, -⟩ := h₁.nack
            { u₁.ulHarqProcesses p with feedbackSlot := 65535, isWaiting := false }
            rfl rfl rfl
          rw [hf]
          change ∃ u', (if (!(u₁.ulHarqProcesses p).isWaiting) = true then _ else _) = _ ∧ _
          rw [hwait]
          exact ⟨_, rfl, av', fb₁, rt', hinv⟩
      | false =>
          obtain ⟨f, hf, hinv⟩ := h₁.done { u₁.ulHarqProcesses p with
            feedbackSlot := 65535, isWaiting := false
            ndi := !(u₁.ulHarqProcesses p).ndi, round := 0 } rfl rfl rfl
          rw [hf]
          change ∃ u', (if (!(u₁.ulHarqProcesses p).isWaiting) = true then _ else _) = _ ∧ _
          rw [hwait]
          exact ⟨_, rfl, av₁ ++ [p], fb₁, rt₁, hinv _ _⟩

/-! ## The scheduler -/

/-- After `pf_ul` the UE has RBs and no process was chosen for them. -/
def findsNew (u : UlUe) (room : UlRoom) : Bool :=
  if room.reached then
    u.ulHarq.retrans.head.isNone &&
      match room.newData with
      | none => u.schedPusch.rbSize != 0
      | some data => data.1 != 0
  else u.schedPusch.ulHarqPid.isNone && u.schedPusch.rbSize != 0

/-- The slot gives the UE a new transmission. -/
def takesNew (u : UlUe) (s : UlSlot) : Bool :=
  s.dlSlot && s.doSched && !s.ulFailure && u.findsNew s.room

/-- A slot that gives the UE a new transmission finds a free process. -/
def Supplied (u : UlUe) : Call → Prop
  | .schedule s => u.takesNew s = true → u.ulHarq.available.head ≠ none
  | .crc _ => True

theorem pfUl_ulHarq (u : UlUe) (room : UlRoom) : (u.pfUl room).ulHarq = u.ulHarq := by
  rw [pfUl]
  split
  · rfl
  · cases u.ulHarq.retrans.head with
    | none => cases room.newData <;> rfl
    | some p =>
        cases room.retrans with
        | none => rfl
        | some retrans =>
            dsimp only [allocateUlRetransmission]
            split <;> rfl

/-- Whatever the searches find, the lists stay as they are, and a chosen process is the first of
those to be sent again. -/
theorem Inv.pfUl (h : u.Inv harqRoundMax av fb rt) (room : UlRoom) :
    (u.pfUl room).Inv harqRoundMax av fb rt ∧
      (u.findsNew room = true ↔
        (u.pfUl room).schedPusch.ulHarqPid = none ∧ (u.pfUl room).schedPusch.rbSize ≠ 0) := by
  rw [UlUe.pfUl, findsNew]
  by_cases hreached : room.reached = true
  · simp only [hreached, Bool.not_true, Bool.false_eq_true, if_false, if_true]
    cases rt with
    | nil =>
        rw [h.parts.head_retrans]
        cases room.newData with
        | none => exact ⟨⟨h.parts, h.saved, fun _ _ hq => by cases hq⟩, by simp⟩
        | some data => exact ⟨⟨h.parts, h.saved, fun _ _ hq => by cases hq⟩, by simp⟩
    | cons p rt =>
        rw [h.parts.head_retrans]
        have hsaved : (u.ulHarqProcesses p).schedPusch.ulHarqPid = some p :=
          h.saved p (List.mem_append_right _ List.mem_cons_self)
        have hpending : ∀ q, some p = some q → q ∈ p :: rt := fun q hq =>
          Option.some.inj hq ▸ List.mem_cons_self
        simp only [List.head?_cons, Option.isNone_some, Bool.false_and, Bool.false_eq_true,
          false_iff, not_and]
        -- only the id that the process remembers matters, and that stays
        have hparts : ∀ info, Parts harqRoundMax
            (u.setHarq p { u.ulHarqProcesses p with schedPusch := info }) av fb (p :: rt) :=
          fun info => parts_of_setHarq (u := u) rfl (by
            have hself : ∀ {α : Type} (f : UlHarq → α),
                Function.update (f ∘ u.ulHarqProcesses) p (f (u.ulHarqProcesses p)) =
                  f ∘ u.ulHarqProcesses := fun f => Function.update_eq_self p _
            rw [hself, hself]
            exact h.parts)
        cases room.retrans with
        | none => exact ⟨⟨h.parts, h.saved, fun _ => hpending⟩, by simp [allocateUlRetransmission]⟩
        | some retrans =>
            dsimp only [allocateUlRetransmission]
            split
            · exact ⟨⟨hparts _, saved_setHarq (fun q hq _ => h.saved q hq) hsaved,
                fun _ => hpending⟩, by simp [setHarq]⟩
            · refine ⟨⟨hparts _, saved_setHarq (fun q hq _ => h.saved q hq) hsaved, fun _ q hq => ?_⟩,
                by simp [hsaved]⟩
              exact hpending q (hsaved.symm.trans hq)
  · rw [Bool.not_eq_true] at hreached
    simp only [hreached, Bool.not_false, if_true, Bool.false_eq_true, if_false]
    exact ⟨h, by simp⟩

/-- The process that was taken is sent, or its round has no redundancy version. -/
theorem sendTaken_right {l : HarqLists} {av' rt' : List ℕ} (h : u.Inv harqRoundMax av fb rt)
    (hfb : p ∉ fb) (hp : p < 16) (hrt : ∀ q ∈ rt', q ∈ rt)
    (hround : (u.ulHarqProcesses p).round ≠ 0 → p ∈ rt) (hl : l.feedback = u.ulHarq.feedback)
    (hparts : Partition harqRoundMax 16 { l with feedback := u.ulHarq.feedback.addTail p }
        (Function.update (UlHarq.isWaiting ∘ u.ulHarqProcesses) p true)
        (UlHarq.round ∘ u.ulHarqProcesses) av' (fb ++ [p]) rt')
    (hu' : u' = { u with
      ulHarq := l
      schedPusch := { u.schedPusch with ulHarqPid := some p } }) :
    (u'.sendTaken p = .error .roundIndex ∧ 4 < harqRoundMax) ∨
      ∃ u'' out, u'.sendTaken p = .ok (u'', out) ∧ u''.Inv harqRoundMax av' (fb ++ [p]) rt' := by
  have hwait : (u'.ulHarqProcesses p).isWaiting = false := by
    subst hu'
    exact Bool.eq_false_iff.mpr fun hw => hfb ((h.parts.waiting_iff p hp).mp hw)
  rw [sendTaken, hwait]
  simp only [Bool.false_eq_true, if_false]
  cases hrv : nrRvRoundMap[(u'.ulHarqProcesses p).round]? with
  | none =>
      subst hu'
      exact .inl ⟨rfl, h.parts.lt_of_rv_none hp hrv⟩
  | some rvIndex =>
      refine .inr ⟨_, _, rfl, ?_, ?_, fun h0 => absurd rfl h0⟩
      · subst hu'
        refine parts_of_setHarq (u := u) rfl ?_
        have hself : Function.update (UlHarq.round ∘ u.ulHarqProcesses) p
            (u.ulHarqProcesses p).round = UlHarq.round ∘ u.ulHarqProcesses :=
          Function.update_eq_self p _
        simp only [hself]
        rw [← hl] at hparts
        exact hparts
      · subst hu'
        refine saved_setHarq (u := u) (fun q hq hne => h.saved q ?_) ?_
        · rw [List.append_assoc, List.mem_append, List.mem_append, List.mem_singleton] at hq
          rcases hq with hq | hq | hq
          · exact List.mem_append_left _ hq
          · exact absurd hq hne
          · exact List.mem_append_right _ (hrt q hq)
        · by_cases h0 : (u.ulHarqProcesses p).round = 0
          · simp [h0]
          · simpa [h0] using h.saved p (List.mem_append_right _ (hround h0))

/-- A slot stops on no assertion but the one for a free process and the index of the round. -/
theorem nrScheduleUlsch_right (h : u.Right harqRoundMax) (s : UlSlot) :
    (u.takesNew s = true ∧ u.ulHarq.available.head = none ∧
        u.nrScheduleUlsch s = .error .noFreeHarq) ∨
      (u.takesNew s = true → u.ulHarq.available.head ≠ none) ∧
        ((u.nrScheduleUlsch s = .error .roundIndex ∧ 4 < harqRoundMax) ∨
          ∃ u' out, u.nrScheduleUlsch s = .ok (u', out) ∧ u'.Right harqRoundMax) := by
  obtain ⟨av, fb, rt, h⟩ := h
  rw [nrScheduleUlsch, takesNew]
  by_cases hrun : (!s.dlSlot || !s.doSched) = true
  · rw [if_pos hrun]
    refine .inr ⟨fun hnew => ?_, .inr ⟨u, [], rfl, av, fb, rt, h⟩⟩
    revert hrun hnew
    cases s.dlSlot <;> cases s.doSched <;> simp
  · rw [if_neg hrun]
    have hslot : { u with schedPusch := { u.schedPusch with slot := s.schedSlot } }.Inv
        harqRoundMax av fb rt := ⟨h.parts, h.saved, h.pending⟩
    obtain ⟨hinv, hnew⟩ := hslot.pfUl s.room
    have hlists := pfUl_ulHarq { u with schedPusch := { u.schedPusch with slot := s.schedSlot } }
      s.room
    generalize pfUl { u with schedPusch := { u.schedPusch with slot := s.schedSlot } } s.room =
      v at hinv hnew hlists
    change u.findsNew s.room = true ↔ _ at hnew
    have hruns : (s.dlSlot && s.doSched) = true := by
      revert hrun
      cases s.dlSlot <;> cases s.doSched <;> simp
    rw [hruns, Bool.true_and, Bool.and_eq_true, Bool.not_eq_true', hnew]
    dsimp only
    by_cases hskip : (s.ulFailure || decide (v.schedPusch.rbSize = 0)) = true
    · rw [if_pos hskip]
      refine .inr ⟨fun hnew => ?_, .inr ⟨v, [], rfl, av, fb, rt, hinv⟩⟩
      rw [hnew.1, Bool.false_or, decide_eq_true_eq] at hskip
      exact absurd hskip hnew.2.2
    · rw [if_neg hskip]
      obtain ⟨hfail, hrb⟩ : s.ulFailure = false ∧ v.schedPusch.rbSize ≠ 0 := by simpa using hskip
      by_cases hnone : v.schedPusch.ulHarqPid = none ∧ av = []
      · refine .inl ⟨⟨hfail, hnone.1, hrb⟩, ?_, ?_⟩
        · rw [h.parts.head_available, hnone.2]
          rfl
        · obtain ⟨hpid, rfl⟩ := hnone
          rw [hpid, hinv.parts.take_none]
          rfl
      · have hfree : v.schedPusch.ulHarqPid = none → av ≠ [] := fun h1 h2 => hnone ⟨h1, h2⟩
        obtain ⟨p, l, av', rt', htake, hl, hp, hfb, hround, -, hrt, -, hparts⟩ :=
          hinv.parts.take v.schedPusch.ulHarqPid (hinv.pending hrb) hfree
        refine .inr ⟨fun hn => ?_, ?_⟩
        · rw [h.parts.head_available]
          exact fun h0 => hfree hn.2.1 (List.head?_eq_none_iff.mp h0)
        · rw [htake]
          refine (sendTaken_right hinv hfb hp hrt hround hl hparts rfl).imp_right ?_
          rintro ⟨u', out, hok, hinv'⟩
          exact ⟨u', out, hok, av', fb ++ [p], rt', hinv'⟩

/-!
## The uplink processes over a sequence of calls

From a new UE on, the three lists partition the 16 processes after every call. The assertions hold
as long as a slot that gives the UE a new transmission finds a free process: `pf_ul` does not look
for one.
-/

open Machine

variable {call : Call} {calls : List Call} {out : List PuschPdu}

/-- What a call does to lists that are right. -/
theorem step_right (h : u.Right harqRoundMax) (call : Call) :
    (¬ u.Supplied call ∧ u.step harqRoundMax call = .error .noFreeHarq) ∨
      u.Supplied call ∧ ((u.step harqRoundMax call = .error .roundIndex ∧ 4 < harqRoundMax) ∨
        ∃ u' out, u.step harqRoundMax call = .ok (u', out) ∧ u'.Right harqRoundMax) := by
  cases call with
  | schedule s =>
      rcases nrScheduleUlsch_right h s with ⟨hnew, hnone, herr⟩ | ⟨hsup, hres⟩
      · exact .inl ⟨fun hs => hs hnew hnone, herr⟩
      · exact .inr ⟨hsup, hres⟩
  | crc pdu =>
      obtain ⟨u', hu', hright⟩ := handleNrUlHarq_right h pdu
      refine .inr ⟨trivial, .inr ⟨u', [], ?_, hright⟩⟩
      rw [step, hu']
      rfl

theorem right_of_step (h : u.Right harqRoundMax)
    (hs : u.step harqRoundMax call = .ok (u', out)) : u'.Right harqRoundMax := by
  rcases step_right h call with ⟨-, he⟩ | ⟨-, ⟨he, -⟩ | ⟨u₁, out₁, hok, hright⟩⟩
  · cases he.symm.trans hs
  · cases he.symm.trans hs
  · obtain rfl : u₁ = u' := congrArg Prod.fst (Except.ok.inj (hok.symm.trans hs))
    exact hright

theorem right_addNewNrUe (harqRoundMax : ℕ) : addNewNrUe.Right harqRoundMax :=
  ⟨_, _, _, inv_addNewNrUe harqRoundMax⟩

/-- The lists are right after any run. -/
theorem right_of_run (h : run (step harqRoundMax) addNewNrUe calls = .ok (u, out)) :
    u.Right harqRoundMax :=
  run_invariant (P := fun _ _ => True) (fun _ _ _ _ hI _ hs => right_of_step hI hs)
    (right_addNewNrUe harqRoundMax) (along_of_forall (fun _ _ => trivial) calls addNewNrUe) h

/-- Along a run the lists partition the processes, with the flags and rounds that belong to them,
and no assertion on lists or flags fires. -/
structure HarqRight (harqRoundMax : ℕ) (calls : List Call) : Prop where
  lists : ∀ pre u out, pre <+: calls → run (step harqRoundMax) addNewNrUe pre = .ok (u, out) →
    ∃ av fb rt, u.Parts harqRoundMax av fb rt
  guards : ∀ e, run (step harqRoundMax) addNewNrUe calls = .error e → e.isGuard = false

/-- A run is right exactly if every slot of it that gives the UE a new transmission finds a free
process. -/
theorem harqRight_iff_supplied (harqRoundMax : ℕ) (calls : List Call) :
    HarqRight harqRoundMax calls ↔
      Along (step harqRoundMax) Supplied addNewNrUe calls := by
  rw [← errors_iff_along (fun e => e.isGuard = false) ?_ ?_ calls
    (right_addNewNrUe harqRoundMax)]
  · refine ⟨HarqRight.guards, fun hg => ⟨fun pre u out _ hr => ?_, hg⟩⟩
    obtain ⟨av, fb, rt, hinv⟩ := right_of_run hr
    exact ⟨av, fb, rt, hinv.parts⟩
  · intro u call hI hsup
    rcases step_right hI call with ⟨hno, -⟩ | ⟨-, ⟨he, -⟩ | hok⟩
    · exact absurd hsup hno
    · exact .inl ⟨_, he, rfl⟩
    · exact .inr hok
  · intro u call hI hno
    rcases step_right hI call with ⟨-, he⟩ | ⟨hsup, -⟩
    · exact ⟨_, he, nofun⟩
    · exact absurd hsup hno

/-- A slot in which `pf_ul` gives the UE 5 RBs for new data. -/
def dataSlot : UlSlot where
  dlSlot := true
  doSched := true
  schedSlot := 8
  room := { reached := true, retrans := none, newData := some (5, 100) }
  ulFailure := false

/-- 17 new transmissions without a CRC: the last one finds no free process. -/
theorem harq_not_right : ¬ HarqRight 4 (List.replicate 17 (.schedule dataSlot)) := by
  intro h
  have hrun : (match run (step 4) addNewNrUe (List.replicate 17 (.schedule dataSlot)) with
      | .error e => e.isGuard
      | .ok _ => false) = true := by decide +kernel
  cases hr : run (step 4) addNewNrUe (List.replicate 17 (.schedule dataSlot)) with
  | error e =>
      rw [hr] at hrun
      exact Bool.false_ne_true ((h.guards e hr).symm.trans hrun)
  | ok r =>
      rw [hr] at hrun
      cases hrun

end OaiCu.NrMac.UlUe
