import OaiCu.Lib.CyclicTime
import OaiCu.NrMac.DlHarq
import Mathlib.Data.List.TakeWhile

/-!
# What `find_harq` removes from the list for feedback

The processes at the front of the list are removed while their feedback is in another frame or in an
earlier slot of the frame. For a sorted list these are the processes whose feedback is past, and with
them those that wait for a later frame, if the first of the others does.
-/

namespace OaiCu.NrMac

open CyclicTime

/-- The frames of the SFN. -/
def MAX_FRAME : ℕ := 1024

/-- The loop does not stop at a process with this feedback. -/
def skipped (frame slot : ℕ) (feedback : ℕ × ℕ) : Bool := feedback.1 ≠ frame ∨ feedback.2 < slot

namespace DlUe

/-- When the feedback of a process is expected. -/
def feedbackTime (u : DlUe) (pid : ℕ) : ℕ × ℕ :=
  ((u.harqProcesses pid).feedbackFrame, (u.harqProcesses pid).feedbackSlot)

/-- How many slots the feedback is ahead, in frames of `n` slots. -/
def feedbackAhead (u : DlUe) (n frame slot pid : ℕ) : ℤ :=
  ahead MAX_FRAME n (count n frame slot) (count n (u.feedbackTime pid).1 (u.feedbackTime pid).2)

theorem handleDlHarq_feedback (u : DlUe) (harqRoundMax pid : ℕ) (success : Bool) :
    (u.handleDlHarq harqRoundMax pid success).dlHarq.feedback = u.dlHarq.feedback := by
  rw [handleDlHarq]
  dsimp only
  split
  · rfl
  · split <;> rfl

/-- Other processes stay as they are. -/
theorem handleDlHarq_of_ne (u : DlUe) (harqRoundMax : ℕ) {pid q : ℕ} (success : Bool)
    (h : q ≠ pid) :
    (u.handleDlHarq harqRoundMax pid success).harqProcesses q = u.harqProcesses q := by
  rw [handleDlHarq]
  dsimp only
  split
  · exact Function.update_of_ne h _ _
  · split <;> exact Function.update_of_ne h _ _

variable {u : DlUe} {fb : List ℕ}

/-- The processes that are skipped are removed, and the first of the others is looked at. -/
theorem findHarq_eq (harqRoundMax frame slot : ℕ) {time : ℕ → ℕ × ℕ} {fuel : ℕ}
    (h : u.dlHarq.feedback.Holds fb) (htime : ∀ p ∈ fb, u.feedbackTime p = time p)
    (hlt : fb.length < fuel) :
    ∃ u', findHarq harqRoundMax frame slot fuel u =
        .ok ((fb.dropWhile fun p => skipped frame slot (time p)).head?.filter
          fun p => (time p).2 ≤ slot, u') ∧
      u'.dlHarq.feedback.Holds (fb.dropWhile fun p => skipped frame slot (time p)) ∧
      ∀ p ∉ fb.takeWhile (fun p => skipped frame slot (time p)),
        u'.harqProcesses p = u.harqProcesses p := by
  induction fb generalizing fuel u with
  | nil =>
      obtain ⟨fuel, rfl⟩ := Nat.exists_eq_add_one_of_ne_zero (Nat.ne_of_gt hlt)
      rw [findHarq, h.head]
      exact ⟨u, rfl, h, fun _ _ => rfl⟩
  | cons p fb ih =>
      obtain ⟨fuel, rfl⟩ := Nat.exists_eq_add_one_of_ne_zero (Nat.ne_zero_of_lt hlt)
      have hp := htime p List.mem_cons_self
      have hframe : (u.harqProcesses p).feedbackFrame = (time p).1 := congrArg Prod.fst hp
      have hslot : (u.harqProcesses p).feedbackSlot = (time p).2 := congrArg Prod.snd hp
      have hskip : ((time p).1 ≠ frame ∨ ((time p).1 = frame ∧ (time p).2 < slot)) ↔
          skipped frame slot (time p) = true := by
        rw [skipped, decide_eq_true_eq]
        tauto
      rw [findHarq, h.head]
      simp only [List.head?_cons, hframe, hslot, hskip]
      by_cases hs : skipped frame slot (time p) = true
      · obtain ⟨f, hf, hholds, -⟩ := h.removeFront
        simp only [List.dropWhile_cons, List.takeWhile_cons, hs, if_true, hf]
        have hfeedback := (u.setFeedback f).handleDlHarq_feedback harqRoundMax p false
        have hother : ∀ q, q ≠ p →
            ((u.setFeedback f).handleDlHarq harqRoundMax p false).harqProcesses q =
              u.harqProcesses q := fun q hq =>
          (u.setFeedback f).handleDlHarq_of_ne harqRoundMax false hq
        obtain ⟨hnot, -⟩ := List.nodup_cons.1 h.nodup
        obtain ⟨u', he, hlist, hrest⟩ := @ih
          ((u.setFeedback f).handleDlHarq harqRoundMax p false) fuel (hfeedback ▸ hholds)
          (fun q hq => by
            rw [← htime q (List.mem_cons_of_mem p hq), feedbackTime, feedbackTime,
              hother q fun he => hnot (he ▸ hq)])
          (Nat.lt_of_succ_lt_succ hlt)
        refine ⟨u', he, hlist, fun q hq => ?_⟩
        rw [List.mem_cons, not_or] at hq
        rw [hrest q hq.2, hother q hq.1]
      · simp only [List.dropWhile_cons, List.takeWhile_cons, hs, Bool.false_eq_true, if_false]
        by_cases hfuture : (time p).2 > slot
        · rw [if_pos hfuture]
          refine ⟨u, ?_, h, fun _ _ => rfl⟩
          rw [List.head?_cons, Option.filter_some, if_neg (by simpa using hfuture)]
        · rw [if_neg hfuture]
          refine ⟨u, ?_, h, fun _ _ => rfl⟩
          rw [List.head?_cons, Option.filter_some, if_pos (by simpa using hfuture)]

/-- A condition that is weaker drops the same elements if it stops at the same one. -/
theorem dropWhile_congr_of_head {α : Type*} {p q : α → Bool} {l : List α}
    (hpq : ∀ a ∈ l, p a = true → q a = true)
    (hhead : ∀ a, (l.dropWhile p).head? = some a → q a = false) :
    l.dropWhile q = l.dropWhile p ∧ l.takeWhile q = l.takeWhile p := by
  induction l with
  | nil => exact ⟨rfl, rfl⟩
  | cons a l ih =>
      rw [List.dropWhile_cons] at hhead
      by_cases hp : p a = true
      · rw [if_pos hp] at hhead
        obtain ⟨hdrop, htake⟩ := ih (fun b hb => hpq b (List.mem_cons_of_mem a hb)) hhead
        simp only [List.dropWhile_cons, List.takeWhile_cons, hp, hpq a List.mem_cons_self hp,
          if_true, hdrop, htake, and_self]
      · rw [if_neg hp] at hhead
        simp [hp, hhead a rfl]

/-! ## Sorted lists -/

/-- The frames and slots that there are, and the feedback of the processes in the order of the
list. Which of two times is the later one is decided the shorter way round. -/
structure FeedbackSorted (u : DlUe) (n frame slot : ℕ) (fb : List ℕ) : Prop where
  holds : u.dlHarq.feedback.Holds fb
  frame_lt : frame < MAX_FRAME
  slot_lt : slot < n
  feedback_lt : ∀ p ∈ fb, (u.feedbackTime p).1 < MAX_FRAME ∧ (u.feedbackTime p).2 < n
  sorted : fb.Pairwise fun p q => u.feedbackAhead n frame slot p ≤ u.feedbackAhead n frame slot q

/-- The processes whose feedback is not past. -/
def notPast (u : DlUe) (n frame slot : ℕ) (fb : List ℕ) : List ℕ :=
  fb.filter fun p => 0 ≤ u.feedbackAhead n frame slot p

/-- On a sorted list the past comes first. -/
theorem notPast_eq_dropWhile {n frame slot : ℕ} (h : u.FeedbackSorted n frame slot fb) :
    u.notPast n frame slot fb = fb.dropWhile fun p => u.feedbackAhead n frame slot p < 0 := by
  have hsorted := h.sorted
  clear h
  induction fb with
  | nil => rfl
  | cons p fb ih =>
      obtain ⟨hp, hsorted⟩ := List.pairwise_cons.1 hsorted
      rw [notPast] at ih ⊢
      rw [List.filter_cons, List.dropWhile_cons, ih hsorted]
      by_cases hpast : u.feedbackAhead n frame slot p < 0
      · simp [hpast]
      · have hrest : fb.dropWhile (fun q => u.feedbackAhead n frame slot q < 0) = fb := by
          cases fb with
          | nil => rfl
          | cons q fb =>
              have hq := hp q List.mem_cons_self
              rw [List.dropWhile_cons, if_neg]
              simp only [decide_eq_true_eq]
              omega
        simp [hpast, hrest, Int.not_lt.1 hpast]

section

variable {n frame slot : ℕ} (h : u.FeedbackSorted n frame slot fb) {p : ℕ} (hp : p ∈ fb)
include h hp

/-- In the frame itself the slots decide. -/
theorem feedbackAhead_of_frame (hframe : (u.feedbackTime p).1 = frame) :
    u.feedbackAhead n frame slot p = (u.feedbackTime p).2 - slot := by
  rw [feedbackAhead, hframe]
  exact ahead_same_hi (by decide) h.slot_lt (h.feedback_lt p hp).2

/-- What is skipped is past or in another frame. -/
theorem skipped_iff : skipped frame slot (u.feedbackTime p) = true ↔
    u.feedbackAhead n frame slot p < 0 ∨ (u.feedbackTime p).1 ≠ frame := by
  rw [skipped, decide_eq_true_eq]
  by_cases hframe : (u.feedbackTime p).1 = frame
  · rw [feedbackAhead_of_frame h hp hframe]
    simp only [hframe, ne_eq, not_true_eq_false, false_or, or_false]
    omega
  · exact iff_of_true (.inl hframe) (.inr hframe)

end

/-- What is past is removed and nothing else, the first of the others is returned if its feedback is
due, and all others stay as they are. -/
def FindHarqRight (u : DlUe) (harqRoundMax n frame slot : ℕ) (fb : List ℕ) : Prop :=
  ∃ found u', findHarq harqRoundMax frame slot (u.dlHarq.feedback.len + 1) u = .ok (found, u') ∧
    u'.dlHarq.feedback.Holds (u.notPast n frame slot fb) ∧
    (∀ p, found = some p ↔ (u.notPast n frame slot fb).head? = some p ∧
      u.feedbackTime p = (frame, slot)) ∧
    ∀ p, (p ∈ fb → p ∈ u.notPast n frame slot fb) → u'.harqProcesses p = u.harqProcesses p

/-- **The search is right exactly if the first process whose feedback is not past waits for this
frame.** -/
theorem findHarq_right_iff (harqRoundMax : ℕ) {n frame slot : ℕ}
    (h : u.FeedbackSorted n frame slot fb) :
    u.FindHarqRight harqRoundMax n frame slot fb ↔
      ∀ p, (u.notPast n frame slot fb).head? = some p → (u.feedbackTime p).1 = frame := by
  have hfuel : fb.length < u.dlHarq.feedback.len + 1 := by
    have hle := h.holds.length_le
    have hlen := h.holds.len
    omega
  obtain ⟨u', he, hlist, hrest⟩ := findHarq_eq harqRoundMax frame slot h.holds
    (fun p _ => rfl) hfuel
  have hnot := notPast_eq_dropWhile h
  have hmem : ∀ {p}, (u.notPast n frame slot fb).head? = some p →
      p ∈ fb ∧ ¬ u.feedbackAhead n frame slot p < 0 := fun hp => by
    have hp' := List.mem_filter.1 (List.mem_of_mem_head? hp)
    exact ⟨hp'.1, Int.not_lt.2 (of_decide_eq_true hp'.2)⟩
  constructor
  · rintro ⟨found, u₁, he', hlist', -, -⟩ p hp
    cases he.symm.trans he'
    have hdrop := LinkedCells.holds_unique hlist'.links hlist.links
    have hstop := List.head?_dropWhile_not (fun p => skipped frame slot (u.feedbackTime p)) fb
    rw [← hdrop, hp] at hstop
    by_contra hframe
    have hskip := (skipped_iff h (hmem hp).1).2 (.inr hframe)
    exact absurd (hskip.symm.trans hstop) (by decide)
  · intro hcond
    obtain ⟨hdrop, htake⟩ := @dropWhile_congr_of_head _
      (fun p => decide (u.feedbackAhead n frame slot p < 0))
      (fun p => skipped frame slot (u.feedbackTime p)) fb
      (fun p hp hpast => (skipped_iff h hp).2 (.inl (of_decide_eq_true hpast)))
      (fun p hp => by
        rw [← hnot] at hp
        obtain ⟨hfb, hpast⟩ := hmem hp
        rw [Bool.eq_false_iff, ne_eq, skipped_iff h hfb, not_or, not_not]
        exact ⟨hpast, hcond p hp⟩)
    rw [hdrop, ← hnot] at he hlist
    refine ⟨_, u', he, hlist, fun p => ?_, fun p hp => hrest p ?_⟩
    · rw [Option.filter_eq_some_iff]
      refine and_congr_right fun hp => ?_
      obtain ⟨hfb, hpast⟩ := hmem hp
      have hframe := hcond p hp
      rw [feedbackAhead_of_frame h hfb hframe] at hpast
      rw [decide_eq_true_eq, Prod.ext_iff]
      exact ⟨fun hle => ⟨hframe, by dsimp only; omega⟩, fun he => by rw [he.2]⟩
    · intro htaken
      rw [htake] at htaken
      have hpast : u.feedbackAhead n frame slot p < 0 := by
        simpa using List.mem_takeWhile_imp htaken
      have hkept := List.mem_filter.1 (hp ((List.takeWhile_sublist _).subset htaken))
      exact absurd hpast (Int.not_lt.2 (of_decide_eq_true hkept.2))

/-- Two processes, for feedback in slot 5 of frame 100 and in slot 3 of the next frame. -/
def exampleFeedback : DlUe where
  dlHarq :=
    { available := NrList.create 2
      feedback := (List.range 2).foldl NrList.addTail (NrList.create 2)
      retrans := NrList.create 2 }
  harqProcesses pid :=
    { DlHarq.zero with
      isWaiting := true
      feedbackFrame := if pid = 0 then 100 else 101
      feedbackSlot := if pid = 0 then 5 else 3 }
  schedPdsch := .zero
  errors := 0

theorem exampleFeedback_sorted {slot : ℕ} (hslot : slot = 5 ∨ slot = 7) :
    exampleFeedback.FeedbackSorted 20 100 slot (List.range 2) := by
  obtain rfl | rfl := hslot
  · exact ⟨(NrList.holds_range 2).1, by decide, by decide, by decide, by decide⟩
  · exact ⟨(NrList.holds_range 2).1, by decide, by decide, by decide, by decide⟩

theorem findHarq_right_iff_due : exampleFeedback.FindHarqRight 4 20 100 5 (List.range 2) := by
  refine (findHarq_right_iff 4 (exampleFeedback_sorted (.inl rfl))).2 fun p hp => ?_
  have hdue : (exampleFeedback.notPast 20 100 5 (List.range 2)).head? = some 0 := by decide
  cases hdue.symm.trans hp
  rfl

/-- **In slot 7 the process that waits for the next frame is removed, too.** -/
theorem findHarq_wrong : exampleFeedback.FeedbackSorted 20 100 7 (List.range 2) ∧
    ¬ exampleFeedback.FindHarqRight 4 20 100 7 (List.range 2) := by
  refine ⟨exampleFeedback_sorted (.inr rfl), ?_⟩
  rintro ⟨found, u', he, hlist, -⟩
  have hfind : ∃ u₁, findHarq 4 100 7 (exampleFeedback.dlHarq.feedback.len + 1) exampleFeedback =
      .ok (none, u₁) ∧ u₁.dlHarq.feedback.head = none := ⟨_, rfl, by decide⟩
  obtain ⟨u₁, he₁, hnone⟩ := hfind
  cases he.symm.trans he₁
  have hhead := hlist.head
  rw [hnone] at hhead
  exact absurd hhead (by decide)

end DlUe

end OaiCu.NrMac
