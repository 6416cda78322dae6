import OaiCu.NrMac.DlHarqStep
import OaiCu.Lib.Machine

/-!
# The downlink processes over a sequence of calls

From a new UE on, the three lists partition the configured processes after every call, and the NDI
of a process is toggled exactly by the calls that free it. No assertion on the lists or on the
processes fires, unless the number of processes is made smaller.
-/

namespace OaiCu.NrMac.DlUe

open Machine

variable {harqRoundMax n : ℕ} {u u' u₀ : DlUe} {call : Call} {calls : List Call}
  {out : List PdschPdu} {pdsch : Option NrofHarqProcesses}

/-- A call that configures the processes does not make them fewer. -/
def Grows (u : DlUe) : Call → Prop
  | .configure pdsch => u.dlHarq.available.len ≤ nrofHarqProcesses pdsch
  | _ => True

/-- nrofHARQ after the call: the number of the last configuration. -/
def nrofHarq (n : ℕ) : Call → ℕ
  | .configure pdsch => nrofHarqProcesses pdsch
  | _ => n

/-- The `n` processes that are configured are in the right lists. -/
def Settled (harqRoundMax n : ℕ) (u : DlUe) : Prop := 0 < n ∧ u.Right harqRoundMax n

/-- The lists are right before the call, for `n` processes, and after it, for `n'`, and the NDI of a
process is toggled exactly if it is freed. -/
def Moved (harqRoundMax n n' : ℕ) (u u' : DlUe) : Prop :=
  ∃ av fb rt av' fb' rt', u.Parts harqRoundMax n av fb rt ∧
    u'.Parts harqRoundMax n' av' fb' rt' ∧ Toggled n u u' av av'

/-- What a call does to lists that are right. -/
theorem step_settled (h : u.Settled harqRoundMax n) (call : Call) :
    (¬ u.Grows call ∧ u.step harqRoundMax call = .error .resizeSmaller) ∨
      u.Grows call ∧ ((u.step harqRoundMax call = .error .roundIndex ∧ 4 < harqRoundMax) ∨
        ∃ u' out, u.step harqRoundMax call = .ok (u', out) ∧
          u'.Settled harqRoundMax (nrofHarq n call) ∧
          Moved harqRoundMax n (nrofHarq n call) u u') := by
  obtain ⟨hn, hidle, av, fb, rt, h⟩ := h
  have hbits : ∀ frame slot bits, ∃ u', harqBits harqRoundMax frame slot u bits = .ok u' ∧
      u'.Settled harqRoundMax n ∧ Moved harqRoundMax n n u u' := by
    intro frame slot bits
    obtain ⟨u', hu', fb', av', rt', hcame⟩ := harqBits_right frame slot bits h
    exact ⟨u', hu', ⟨hn, hcame.sched ▸ hidle, av', fb', rt', hcame.inv⟩,
      av, fb, rt, av', fb', rt', h.parts, hcame.inv.parts, hcame.toggled⟩
  have hsame : u.Settled harqRoundMax n ∧ Moved harqRoundMax n n u u :=
    ⟨⟨hn, hidle, av, fb, rt, h⟩, av, fb, rt, av, fb, rt, h.parts, h.parts,
      toggled_of_eq (fun _ => rfl) fun _ hq => hq⟩
  cases call with
  | schedule s =>
      refine .inr ⟨trivial, (nrScheduleUeSpec_right h hidle s).imp_right ?_⟩
      rintro ⟨u', out, hok, hidle', av', fb', rt', h', htog⟩
      exact ⟨u', out, hok, ⟨hn, hidle', av', fb', rt', h'⟩,
        av, fb, rt, av', fb', rt', h.parts, h'.parts, htog⟩
  | uci01 frame slot uci =>
      refine .inr ⟨trivial, .inr ?_⟩
      rw [step, handleNrUciPucch01]
      split
      · obtain ⟨u', hu', hright⟩ := hbits frame slot
          (uci.harqValues.map fun value => value = 0 && uci.harqConfidenceLevel = 0)
        exact ⟨u', [], by rw [hu']; rfl, hright⟩
      · exact ⟨u, [], rfl, hsame⟩
  | uci234 frame slot csi uci =>
      refine .inr ⟨trivial, .inr ?_⟩
      rw [step, handleNrUciPucch234]
      split
      · exact ⟨u, [], rfl, hsame⟩
      · split
        · obtain ⟨u', hu', hright⟩ := hbits frame slot
            ((List.range uci.harqBitLen).map fun bit => uci.harqCrc ≠ 1 && uci.acknack bit ≠ 0)
          exact ⟨u', [], by rw [hu']; rfl, hright⟩
        · exact ⟨u, [], rfl, hsame⟩
  | configure pdsch =>
      rw [Grows, h.len_eq, step]
      by_cases hgrow : n ≤ nrofHarqProcesses pdsch
      · obtain ⟨u', hu', hsched, av', h', htog⟩ := createDlHarqList_right h hn hgrow
        refine .inr ⟨hgrow, .inr ⟨u', [], by rw [hu']; rfl, ?_, ?_⟩⟩
        · exact ⟨nrofHarqProcesses_pos pdsch, hsched ▸ hidle, av', fb, rt, h'⟩
        · exact ⟨av, fb, rt, av', fb, rt, h.parts, h'.parts, htog⟩
      · refine .inl ⟨hgrow, ?_⟩
        rw [createDlHarqList_smaller h hn (Nat.lt_of_not_le hgrow)]
        rfl

theorem settled_of_step (h : u.Settled harqRoundMax n)
    (hs : u.step harqRoundMax call = .ok (u', out)) :
    u'.Settled harqRoundMax (nrofHarq n call) ∧ Moved harqRoundMax n (nrofHarq n call) u u' := by
  rcases step_settled h call with ⟨-, he⟩ | ⟨-, ⟨he, -⟩ | ⟨u₁, out₁, hok, hright⟩⟩
  · cases he.symm.trans hs
  · cases he.symm.trans hs
  · obtain rfl : u₁ = u' := congrArg Prod.fst (Except.ok.inj (hok.symm.trans hs))
    exact hright

theorem settled_addNewNrUe (h : addNewNrUe pdsch = .ok u) :
    u.Settled harqRoundMax (nrofHarqProcesses pdsch) := by
  obtain ⟨u', hu', hright⟩ := addNewNrUe_right harqRoundMax pdsch
  obtain rfl : u' = u := Except.ok.inj (hu'.symm.trans h)
  exact ⟨nrofHarqProcesses_pos pdsch, hright⟩

/-- The lists are right after any run, for the number of processes of its last configuration. -/
theorem settled_of_run (h : addNewNrUe pdsch = .ok u₀)
    (hrun : run (step harqRoundMax) u₀ calls = .ok (u, out)) :
    u.Settled harqRoundMax (calls.foldl nrofHarq (nrofHarqProcesses pdsch)) := by
  refine history_invariant (P := fun _ _ => True)
    (J := fun calls u _ => u.Settled harqRoundMax (calls.foldl nrofHarq (nrofHarqProcesses pdsch)))
    (settled_addNewNrUe h) (fun calls call _ _ _ _ _ hJ _ hs => ?_)
    (along_of_forall (fun _ _ => trivial) calls u₀) hrun
  rw [List.foldl_append]
  exact (settled_of_step hJ hs).1

/-- Along a run in which the processes do not get fewer, the lists partition those of the last
configuration with the flags and rounds that belong to them, each call toggles the NDI of those that
it frees and of no other, and no assertion on the lists or on a process fires. -/
theorem dlHarq_right (h : addNewNrUe pdsch = .ok u₀)
    (hgrows : Along (step harqRoundMax) Grows u₀ calls) :
    (∀ pre u out, pre <+: calls → run (step harqRoundMax) u₀ pre = .ok (u, out) →
      ∃ av fb rt, u.Parts harqRoundMax (pre.foldl nrofHarq (nrofHarqProcesses pdsch)) av fb rt) ∧
    (∀ pre call u out u' out', pre ++ [call] <+: calls →
      run (step harqRoundMax) u₀ pre = .ok (u, out) →
      u.step harqRoundMax call = .ok (u', out') →
      Moved harqRoundMax (pre.foldl nrofHarq (nrofHarqProcesses pdsch))
        ((pre ++ [call]).foldl nrofHarq (nrofHarqProcesses pdsch)) u u') ∧
    ∀ e, run (step harqRoundMax) u₀ calls = .error e → e.isGuard = false := by
  refine ⟨fun pre u out _ hr => ?_, fun pre call u out u' out' _ hr hs => ?_, ?_⟩
  · obtain ⟨-, -, av, fb, rt, hinv⟩ := settled_of_run h hr
    exact ⟨av, fb, rt, hinv.parts⟩
  · rw [List.foldl_append]
    exact (settled_of_step (settled_of_run h hr) hs).2
  · refine (errors_iff_along (fun e => e.isGuard = false) (I := fun u => ∃ n, Settled harqRoundMax n u)
      ?_ ?_ calls ⟨_, settled_addNewNrUe h⟩).mpr hgrows
    · rintro u call ⟨n, hI⟩ hgrow
      rcases step_settled hI call with ⟨hno, -⟩ | ⟨-, ⟨he, -⟩ | ⟨u', out, hok, hI', -⟩⟩
      · exact absurd hgrow hno
      · exact .inl ⟨_, he, rfl⟩
      · exact .inr ⟨u', out, hok, _, hI'⟩
    · rintro u call ⟨n, hI⟩ hno
      rcases step_settled hI call with ⟨-, he⟩ | ⟨hgrow, -⟩
      · exact ⟨_, he, nofun⟩
      · exact absurd hgrow hno

/-- A new transmission, its NACK, and a configuration of more processes. -/
def nackedCalls : List Call :=
  [.schedule
    { dlSlot := true, ulFailure := false, reached := true, retrans := none
      newData := some { rbSize := 5, tbSize := 100, pucchAllocation := 0 }
      schedPucch := fun _ => (0, 8) },
   .uci01 0 8 { pduBitmap := 2, harqValues := [1], harqConfidenceLevel := 0 },
   .configure (some .n16)]

theorem dlHarq_right_nacked :
    ∃ u₀, addNewNrUe none = .ok u₀ ∧
      (∀ pre u out, pre <+: nackedCalls → run (step 4) u₀ pre = .ok (u, out) →
        ∃ av fb rt, u.Parts 4 (pre.foldl nrofHarq 8) av fb rt) ∧
      (∀ pre call u out u' out', pre ++ [call] <+: nackedCalls →
        run (step 4) u₀ pre = .ok (u, out) → u.step 4 call = .ok (u', out') →
        Moved 4 (pre.foldl nrofHarq 8) ((pre ++ [call]).foldl nrofHarq 8) u u') ∧
      ∀ e, run (step 4) u₀ nackedCalls = .error e → e.isGuard = false := by
  obtain ⟨u₀, h, -⟩ := addNewNrUe_right 4 none
  refine ⟨u₀, h, dlHarq_right h (along_of_check (c := fun u call => match call with
    | .configure pdsch => u.dlHarq.available.len ≤ nrofHarqProcesses pdsch
    | _ => true) (fun u call hc => ?_) ?_)⟩
  · cases call with
    | configure pdsch =>
        rw [decide_eq_true_eq] at hc
        exact hc
    | schedule s => trivial
    | uci01 frame slot uci => trivial
    | uci234 frame slot csi uci => trivial
  · obtain rfl : _ = u₀ := Except.ok.inj h
    decide +kernel

end OaiCu.NrMac.DlUe
