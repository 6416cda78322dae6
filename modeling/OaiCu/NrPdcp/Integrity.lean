import OaiCu.NrPdcp.Window

/-!
# Integrity of what PDCP delivers

A PDU whose MAC-I is wrong is only logged: it is stored and delivered like any other one.
What the integrity check is for holds in a run exactly if every such PDU is thrown away for
another reason.
-/

namespace OaiCu.NrPdcp

open Machine

/-! ## Where delivered SDUs come from -/

/-- Storing an SDU delivers a front of the list with the SDU in it. -/
theorem storeSdu_split (e : PdcpEntity) (sdu : PdcpSdu) (size : ℕ) :
    ∃ ds, sduListAdd e.rxList sdu = ds ++ (storeSdu e sdu size).1.rxList ∧
      (storeSdu e sdu size).2 = sduOutputs ds := by
  rw [storeSdu_eq]
  split
  · refine ⟨(deliverFrom e.rxDeliv (withSdu e sdu size).rxList).2.2, ?_, rfl⟩
    rw [(restart_spec _).1]
    exact (deliverFrom_append _ _).symm
  · refine ⟨[], ?_, rfl⟩
    rw [(restart_spec _).1]
    rfl

theorem checkTReordering_split (cfg : PdcpConfig) (e : PdcpEntity) :
    ∃ ds, e.rxList = ds ++ (checkTReordering cfg e).1.rxList ∧
      (checkTReordering cfg e).2 = sduOutputs ds := by
  rw [checkTReordering]
  split
  · exact ⟨[], rfl, rfl⟩
  split
  · exact ⟨[], rfl, rfl⟩
  · refine ⟨e.rxList.takeWhile (·.count < e.rxReord) ++
      (deliverFrom e.rxReord (belowReord e).rxList).2.2, ?_, ?_⟩
    · have h := (restart_spec (deliverSdus (belowReord e) e.rxReord).1).1
      rw [stopReordering, if_neg (by simp [belowReord])] at h
      change e.rxList = _ ++ (startReordering (deliverSdus (belowReord e) e.rxReord).1).rxList
      rw [h, List.append_assoc]
      exact (List.takeWhile_append_dropWhile.symm.trans
        (congrArg _ (deliverFrom_append (belowReord e).rxList e.rxReord).symm))
    · rw [sduOutputs, List.map_append]
      rfl

/-- The MAC-I of the PDU is right for the COUNT that the receiver gives it. -/
def MacOk (cfg : PdcpConfig) (e : PdcpEntity) (buffer : List UInt8) : Prop :=
  integrityOk cfg (pduCount cfg e buffer) (plainPdu cfg e buffer) = true

/-- One of the calls received a PDU with a right MAC-I and stored this SDU from it. -/
def Verified (cfg : PdcpConfig) (calls : List Call) (sdu : PdcpSdu) : Prop :=
  ∃ pre buffer post e outs, calls = pre ++ .recvPdu buffer :: post ∧
    pdcpRun cfg pre = .ok (e, outs) ∧ MacOk cfg e buffer ∧ storedSdu cfg e buffer = some sdu

theorem verified_append {cfg : PdcpConfig} {calls : List Call} {sdu : PdcpSdu} (call : Call)
    (h : Verified cfg calls sdu) : Verified cfg (calls ++ [call]) sdu := by
  obtain ⟨pre, buffer, post, e, outs, rfl, hrun, hok, hst⟩ := h
  exact ⟨pre, buffer, post ++ [call], e, outs, by simp, hrun, hok, hst⟩

/-- A PDU that fails the check changes nothing of the receiver. -/
def FailureKeeps (cfg : PdcpConfig) (e : PdcpEntity) : Call → Prop
  | .recvPdu buffer =>
      LongEnough cfg buffer → ¬ MacOk cfg e buffer →
        (recvPdu cfg e buffer).1.rxList = e.rxList ∧
          (recvPdu cfg e buffer).1.rxNext = e.rxNext ∧
          (recvPdu cfg e buffer).1.rxDeliv = e.rxDeliv ∧
          (recvPdu cfg e buffer).1.rxReord = e.rxReord ∧
          (recvPdu cfg e buffer).1.tReorderingStart = e.tReorderingStart
  | _ => True

/-- A PDU that fails the check is old or a duplicate. -/
def ForgeryDiscarded (cfg : PdcpConfig) (e : PdcpEntity) : Call → Prop
  | .recvPdu buffer =>
      LongEnough cfg buffer → ¬ MacOk cfg e buffer →
        pduCount cfg e buffer < e.rxDeliv ∨ sduInList e.rxList (pduCount cfg e buffer) = true
  | _ => True

/-- Whatever was delivered was verified, and what failed changed nothing. -/
def IntegrityEnforced (cfg : PdcpConfig) (calls : List Call) : Prop :=
  (∀ e outs, pdcpRun cfg calls = .ok (e, outs) → ∀ buf ∈ delivered outs,
    ∃ sdu, Verified cfg calls sdu ∧ sdu.buffer = buf) ∧
  Along (pdcpStep cfg) (FailureKeeps cfg) {} calls

/-! ## A stored PDU always shows -/

theorem deliverFrom_nil {count : ℕ} : ∀ {l : List PdcpSdu},
    (deliverFrom count l).2.2 = [] → (deliverFrom count l).1 = count
  | [], _ => rfl
  | cur :: l, h => by
      rw [deliverFrom] at h ⊢
      split at h
      · cases h
      · rename_i hne
        rw [if_neg hne]

theorem deliverFrom_singleton {count : ℕ} : ∀ {l : List PdcpSdu},
    (deliverFrom count l).2.2.length = 1 → (deliverFrom count l).1 = (count + 1) % 2 ^ 32
  | [], h => by simp [deliverFrom] at h
  | cur :: l, h => by
      rw [deliverFrom] at h ⊢
      split at h
      · rename_i heq
        rw [if_pos heq]
        refine deliverFrom_nil (List.length_eq_zero_iff.1 ?_)
        simpa using h
      · simp at h

/-- Storing an SDU changes the list or `rx_deliv`. -/
theorem storeSdu_changes (e : PdcpEntity) (sdu : PdcpSdu) (size : ℕ)
    (hl : (storeSdu e sdu size).1.rxList = e.rxList) :
    (storeSdu e sdu size).1.rxDeliv ≠ e.rxDeliv := by
  rw [storeSdu_eq] at hl ⊢
  split at hl
  · rename_i hc
    rw [if_pos hc]
    simp only [(restart_spec _).1, (restart_spec _).2.1] at hl ⊢
    have happ := deliverFrom_append (withSdu e sdu size).rxList e.rxDeliv
    have hlen : (deliverFrom e.rxDeliv (withSdu e sdu size).rxList).2.2.length = 1 := by
      have h := congrArg List.length happ
      change (deliverFrom e.rxDeliv (withSdu e sdu size).rxList).2.1 = _ at hl
      rw [hl, List.length_append] at h
      have := length_sduListAdd e.rxList sdu
      change _ = (sduListAdd e.rxList sdu).length at h
      omega
    change (deliverFrom e.rxDeliv (withSdu e sdu size).rxList).1 ≠ _
    rw [deliverFrom_singleton hlen]
    omega
  · rw [(restart_spec _).1] at hl
    have h := congrArg List.length hl
    have := length_sduListAdd e.rxList sdu
    change (sduListAdd e.rxList sdu).length = _ at h
    omega

theorem storedSdu_eq_none {cfg : PdcpConfig} {e : PdcpEntity} {buffer : List UInt8}
    (hlong : LongEnough cfg buffer) :
    storedSdu cfg e buffer = none ↔
      pduCount cfg e buffer < e.rxDeliv ∨ sduInList e.rxList (pduCount cfg e buffer) = true := by
  rw [storedSdu]
  split
  · rename_i h
    simp [h.2.2, not_lt.2 h.2.1]
  · rename_i h
    refine iff_of_true rfl ?_
    by_contra hn
    simp only [not_or, not_lt, Bool.not_eq_true] at hn
    exact h ⟨hlong, hn⟩

theorem failureKeeps_iff (cfg : PdcpConfig) (e : PdcpEntity) (call : Call) :
    FailureKeeps cfg e call ↔ ForgeryDiscarded cfg e call := by
  cases call with
  | recvSdu buffer sduId => exact Iff.rfl
  | setTime now => exact Iff.rfl
  | recvPdu buffer =>
      refine imp_congr_right fun hlong => imp_congr_right fun _ => ?_
      rw [← storedSdu_eq_none hlong]
      have hspec := recvPdu_spec cfg e buffer
      split at hspec
      · rename_i hst
        rw [hspec.1]
        exact iff_of_true ⟨rfl, rfl, rfl, rfl, rfl⟩ hst
      · rename_i sdu hst
        rw [hspec.1, hst]
        refine iff_of_false ?_ (by simp)
        rintro ⟨hl, -, hd, -⟩
        exact storeSdu_changes e sdu _ hl hd

/-! ## The run -/

/-- What waits in the list and what was delivered was verified. -/
structure Origin (cfg : PdcpConfig) (calls : List Call) (e : PdcpEntity) (outs : List Output) :
    Prop where
  waiting : ∀ s ∈ e.rxList, Verified cfg calls s
  done : ∀ buf ∈ delivered outs, ∃ sdu, Verified cfg calls sdu ∧ sdu.buffer = buf

/-- A call that delivers a front of a verified list and keeps the rest. -/
theorem Origin.flush {cfg : PdcpConfig} {calls : List Call} {call : Call} {e e' : PdcpEntity}
    {outs out : List Output} {l ds : List PdcpSdu} (hO : Origin cfg calls e outs)
    (hl : ∀ s ∈ l, Verified cfg (calls ++ [call]) s) (hsplit : l = ds ++ e'.rxList)
    (hout : delivered out = ds.map (·.buffer)) :
    Origin cfg (calls ++ [call]) e' (outs ++ out) where
  waiting := fun s hs => hl s (hsplit ▸ List.mem_append_right _ hs)
  done := by
    intro buf hbuf
    rw [delivered_append, hout] at hbuf
    rcases List.mem_append.1 hbuf with h | h
    · obtain ⟨sdu, hv, rfl⟩ := hO.done buf h
      exact ⟨sdu, verified_append call hv, rfl⟩
    · obtain ⟨sdu, hs, rfl⟩ := List.mem_map.1 h
      exact ⟨sdu, hl sdu (hsplit ▸ List.mem_append_left _ hs), rfl⟩

theorem origin_step {cfg : PdcpConfig} {calls : List Call} {call : Call} {e e' : PdcpEntity}
    {outs out : List Output} (hrun : pdcpRun cfg calls = .ok (e, outs))
    (hO : Origin cfg calls e outs) (hf : ForgeryDiscarded cfg e call)
    (hs : pdcpStep cfg e call = .ok (e', out)) :
    Origin cfg (calls ++ [call]) e' (outs ++ out) := by
  have hold : ∀ s ∈ e.rxList, Verified cfg (calls ++ [call]) s :=
    fun s hs => verified_append call (hO.waiting s hs)
  cases call with
  | recvSdu buffer sduId =>
      cases hs
      exact hO.flush hold (List.nil_append _).symm rfl
  | setTime now =>
      obtain ⟨ds, h1, h2⟩ := checkTReordering_split cfg { e with tCurrent := now.toNat }
      replace hs : setTime cfg e now = (e', out) := Except.ok.inj hs
      rw [← setTime, hs] at h1 h2
      simp only at h1 h2
      refine hO.flush hold h1 ?_
      rw [h2, delivered_sduOutputs]
  | recvPdu buffer =>
      have hspec := recvPdu_spec cfg e buffer
      replace hs : recvPdu cfg e buffer = (e', out) := Except.ok.inj hs
      rw [hs] at hspec
      split at hspec
      · simp only at hspec
        refine @Origin.flush _ _ _ _ _ _ _ e.rxList [] hO hold ?_ hspec.2
        rw [hspec.1, List.nil_append]
      · rename_i sdu hst
        simp only at hspec
        have hok : MacOk cfg e buffer := by
          by_contra hbad
          have := (storedSdu_eq_none (storedSdu_some hst).1).2
            (hf (storedSdu_some hst).1 hbad)
          rw [this] at hst
          cases hst
        obtain ⟨ds, h1, h2⟩ := storeSdu_split e sdu (buffer.length - cfg.headerSize)
        refine @Origin.flush _ _ _ _ _ _ _ (sduListAdd e.rxList sdu) ds hO ?_ ?_ ?_
        · intro s hs
          rcases mem_sduListAdd.1 hs with rfl | hs
          · exact ⟨calls, buffer, [], e, outs, rfl, hrun, hok, hst⟩
          · exact hold s hs
        · rw [hspec.1]
          exact h1
        · rw [hspec.2, h2, delivered_sduOutputs]

/-- Integrity is enforced in a run exactly if every PDU that fails the check is old or a
duplicate. -/
theorem integrity_enforced (cfg : PdcpConfig) (calls : List Call) :
    IntegrityEnforced cfg calls ↔ Along (pdcpStep cfg) (ForgeryDiscarded cfg) {} calls := by
  have hiff : Along (pdcpStep cfg) (FailureKeeps cfg) {} calls ↔
      Along (pdcpStep cfg) (ForgeryDiscarded cfg) {} calls :=
    along_iff_along (I := fun _ => True) (fun e call _ => failureKeeps_iff cfg e call)
      (fun _ _ _ _ _ _ _ => trivial) trivial
  constructor
  · exact fun h => hiff.1 h.2
  · intro h
    refine ⟨fun e outs hrun => ?_, hiff.2 h⟩
    have h0 : Origin cfg [] {} [] :=
      ⟨fun s hs => absurd hs List.not_mem_nil, fun buf hb => absurd hb List.not_mem_nil⟩
    exact (history_invariant h0
      (fun _ _ _ _ _ _ hr hO hf hs => origin_step hr hO hf hs) h hrun).done

/-- A PDU with MAC-I 0 instead of the right one is delivered at once. -/
theorem forgery_delivered :
    (exampleCfg true).hasIntegrity = true ∧
      ¬ IntegrityEnforced (exampleCfg true) [.recvPdu [0x80, 0, 1, 0, 0, 0, 0]] := by
  refine ⟨rfl, fun h => ?_⟩
  have hdeliv := (h.2.1 (by decide +kernel) (by unfold MacOk; decide +kernel)).2.2.1
  exact absurd hdeliv (by decide +kernel)

end OaiCu.NrPdcp
