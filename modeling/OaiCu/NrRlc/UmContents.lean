import OaiCu.NrRlc.AmContents
import OaiCu.NrRlc.UmSize

/-!
# RLC UM: what a segment stands for, and grants for both modes

A segment in `tx_list` is a part of its SDU, so that its PDU holds what it should; the PDU of a
data segment is as large as was computed before the segment was cut.
-/

namespace OaiCu.NrRlc.Um

open Machine

/-! ## The invariant -/

/-- The segment is a part of its SDU. -/
structure Holds (tx : UmTx) (s : Segment) : Prop where
  sdu_lt : s.sdu < tx.nextSdu
  le : s.so + s.size ≤ (tx.heap s.sdu).data.length
  first : s.isFirst = true → s.so = 0

/-- Segments are parts of SDUs. -/
structure Contents (cfg : UmConfig) (tx : UmTx) : Prop where
  txNext_range : 0 ≤ tx.txNext ∧ tx.txNext < cfg.snModulus
  size_le : ∀ i, (tx.heap i).data.length ≤ nrSduMax
  holds : ∀ s ∈ tx.txList, Holds tx s

section Contents

variable {cfg : UmConfig} {tx tx' : UmTx} {buffer pdu : List UInt8} {s : Segment}

/-- Segments may be cut, and SDUs keep their data. -/
theorem Contents.sub (h : Contents cfg tx)
    (hn : 0 ≤ tx'.txNext ∧ tx'.txNext < cfg.snModulus) (hs : tx'.nextSdu = tx.nextSdu)
    (hheap : ∀ i, (tx'.heap i).data = (tx.heap i).data)
    (hl : ∀ s ∈ tx'.txList, Holds tx s) : Contents cfg tx' where
  txNext_range := hn
  size_le i := hheap i ▸ h.size_le i
  holds s hsm := ⟨hs ▸ (hl s hsm).sdu_lt, hheap s.sdu ▸ (hl s hsm).le, (hl s hsm).first⟩

theorem update_data {heap : ℕ → Sdu} {i : ℕ} {sdu : Sdu} (h : sdu.data = (heap i).data) (j : ℕ) :
    (Function.update heap i sdu j).data = (heap j).data := by
  by_cases hj : j = i
  · subst hj
    simpa using h
  · simp [hj]

/-- The call of `serialize_sdu` in `generate_tx_pdu`, for a segment that begins where the head of
`tx_list` does and fits into the buffer. -/
structure Serializes (cfg : UmConfig) (tx : UmTx) (buffer : List UInt8) (s : Segment) (sdu : Sdu)
    (pdu : List UInt8) : Prop where
  eq : serializeSdu cfg s sdu buffer = .ok pdu
  fits : pduSize cfg s ≤ buffer.length
  sn : sdu.sn = tx.txNext
  head : ∃ head ∈ tx.txList.head?, s.sdu = head.sdu ∧ s.so = head.so ∧
    s.isFirst = head.isFirst ∧ s.size ≤ head.size ∧ sdu.data = (tx.heap head.sdu).data

/-- How `generate_tx_pdu` can end. -/
inductive TxOutcome (cfg : UmConfig) (tx : UmTx) (buffer : List UInt8) :
    Except Fault (UmTx × List UInt8) → Prop
  | refused (h : ¬ NoRoomForSn cfg tx buffer) : TxOutcome cfg tx buffer (.ok (tx, []))
  | lost {tx' : UmTx} (h : NoRoomForSn cfg tx buffer) (hlist : tx'.txList = tx.txList.tail)
      (hc : Contents cfg tx → Contents cfg tx') : TxOutcome cfg tx buffer (.ok (tx', []))
  | sent {tx' : UmTx} {s : Segment} {sdu : Sdu} {pdu : List UInt8}
      (h : ¬ NoRoomForSn cfg tx buffer) (hs : Serializes cfg tx buffer s sdu pdu)
      (hc : Contents cfg tx → Contents cfg tx') :
      TxOutcome cfg tx buffer (.ok (tx', pdu))

theorem resegment_holds {s₁ s₂ : Segment} {size addr : ℕ} (h : Holds tx s)
    (hr : resegment cfg s size addr = some (s₁, s₂)) : Holds tx s₂ := by
  have hle := h.le
  obtain ⟨hsum, -⟩ := resegment_some hr
  unfold resegment at hr
  dsimp only at hr
  split at hr
  · cases hr
  · cases hr
    refine ⟨h.sdu_lt, ?_, nofun⟩
    simp only at hsum ⊢
    omega

theorem resegment_fits {s₁ s₂ : Segment} {size addr : ℕ} (hlt : pduSize cfg s > size)
    (hr : resegment cfg s size addr = some (s₁, s₂)) :
    pduSize cfg s₁ ≤ size ∧ s₁.sdu = s.sdu ∧ s₁.so = s.so ∧ s₁.isFirst = s.isFirst ∧
      s₁.size ≤ s.size := by
  unfold resegment at hr
  dsimp only at hr
  split at hr
  · cases hr
  · rename_i hroom
    cases hr
    refine ⟨?_, rfl, rfl, rfl, Nat.sub_le _ _⟩
    have := @computePduHeaderSize_false cfg s.isFirst s.isLast
    unfold pduSize at *
    simp only
    omega

/-- `serialize_sdu` does not fail for a segment that fits. -/
theorem sendSegment_ok (tx : UmTx) (hfits : pduSize cfg s ≤ buffer.length) :
    ∃ tx' pdu, sendSegment cfg tx s buffer = .ok (tx', pdu) ∧
      serializeSdu cfg s (tx.heap s.sdu) buffer = .ok pdu ∧
      (Contents cfg tx → Contents cfg tx') := by
  obtain ⟨pdu, h, -⟩ := @serializeSdu_spec cfg buffer s (tx.heap s.sdu)
    ((Nat.le_add_right _ _).trans hfits)
  have hpos : 0 < cfg.snModulus := by
    unfold UmConfig.snModulus
    positivity
  unfold sendSegment
  split
  all_goals
    dsimp only
    rw [h]
    refine ⟨_, pdu, rfl, rfl, fun hc => ?_⟩
  · refine hc.sub ⟨Int.emod_nonneg _ hpos.ne', Int.emod_lt_of_pos _ hpos⟩ rfl
      (@update_data _ _ (tx.heap s.sdu).freeSegment rfl) hc.holds
  · exact hc.sub hc.txNext_range rfl (@update_data _ _ (tx.heap s.sdu).freeSegment rfl) hc.holds

theorem TxOutcome.of_fits {tx₁ : UmTx} {head : Segment} {next : List Segment}
    (h : ¬ NoRoomForSn cfg tx buffer) (hl : tx.txList = head :: next)
    (hfits : pduSize cfg s ≤ buffer.length)
    (hs : s.sdu = head.sdu ∧ s.so = head.so ∧ s.isFirst = head.isFirst ∧ s.size ≤ head.size)
    (hsn : (tx₁.heap head.sdu).sn = tx.txNext)
    (hdata : ∀ i, (tx₁.heap i).data = (tx.heap i).data)
    (hc : Contents cfg tx → Contents cfg tx₁) :
    TxOutcome cfg tx buffer (sendSegment cfg tx₁ s buffer) := by
  obtain ⟨tx', pdu, hsend, hser, hkeep⟩ := @sendSegment_ok cfg buffer _ tx₁ hfits
  rw [hsend]
  refine .sent h ⟨hser, hfits, ?_, head, ?_, hs.1, hs.2.1, hs.2.2.1, hs.2.2.2, ?_⟩
    fun h => hkeep (hc h)
  · rw [hs.1]
    exact hsn
  · rw [hl]
    exact rfl
  · rw [hs.1]
    exact hdata head.sdu

theorem generateTxPdu_outcome :
    TxOutcome cfg tx buffer (generateTxPdu cfg tx buffer) := by
  unfold generateTxPdu
  split
  · rename_i hl
    exact .refused (by simp [NoRoomForSn, hl])
  rename_i sdu next hl
  have hhead : ∀ s, tx.txList.head? = some s → s = sdu := by
    intro s hs
    rw [hl, List.head?_cons, Option.some.injEq] at hs
    exact hs.symm
  split
  · rename_i hroom
    refine .refused ?_
    rintro ⟨h12, h2, s, hs, hf, hla, -⟩
    obtain rfl := hhead s hs
    simp [computePduHeaderSize, hf, hla] at hroom
    omega
  rename_i hroom
  -- the head gets its SN and is taken off
  have hsn : ∀ i, (Function.update tx.heap sdu.sdu { tx.heap sdu.sdu with sn := tx.txNext } i).data =
      (tx.heap i).data := @update_data _ _ { tx.heap sdu.sdu with sn := tx.txNext } rfl
  dsimp only
  split
  · rename_i hlt
    have href : ∀ i, (Function.update
        (Function.update tx.heap sdu.sdu { tx.heap sdu.sdu with sn := tx.txNext }) sdu.sdu
        { tx.heap sdu.sdu with sn := tx.txNext, refCount := (tx.heap sdu.sdu).refCount + 1 }
        i).data = (tx.heap i).data := fun i =>
      (update_data (by simp) i).trans (hsn i)
    split
    · rename_i hres
      have hnone := (@resegment_eq_none_iff cfg tx sdu next buffer tx.nextSeg hl (by omega) hlt).mp
        hres
      refine .lost hnone (by rw [hl]; rfl) fun hc => ?_
      refine hc.sub hc.txNext_range rfl (fun i => ?_)
        (fun s hs => hc.holds s (hl ▸ List.mem_cons_of_mem _ hs))
      simpa using href i
    · rename_i s₁ s₂ hres
      obtain ⟨hfits, hsdu, hrest⟩ := resegment_fits hlt hres
      have hsome : ¬ NoRoomForSn cfg tx buffer := by
        rw [← @resegment_eq_none_iff cfg tx sdu next buffer tx.nextSeg hl (by omega) hlt, hres]
        simp
      refine .of_fits hsome hl hfits ⟨hsdu, hrest⟩ (by simp) (fun i => by simpa using href i)
        fun hc => ?_
      have hcut : Holds tx s₂ := resegment_holds (hc.holds sdu (hl ▸ List.mem_cons_self)) hres
      refine hc.sub hc.txNext_range rfl (fun i => by simpa using href i) fun s hs => ?_
      rcases List.mem_cons.mp hs with rfl | hs
      · exact hcut
      · exact hc.holds s (hl ▸ List.mem_cons_of_mem _ hs)
  · rename_i hle
    have hfit : ¬ NoRoomForSn cfg tx buffer := by
      rintro ⟨h12, h2, s, hs, hf, hla, hsize⟩
      obtain rfl := hhead s hs
      simp [pduSize, computePduHeaderSize, hf, hla] at hle
      omega
    refine .of_fits hfit hl (not_lt.mp hle) ⟨rfl, rfl, rfl, le_rfl⟩ (by simp) hsn fun hc => ?_
    exact hc.sub hc.txNext_range rfl hsn fun s hs => hc.holds s (hl ▸ List.mem_cons_of_mem _ hs)

/-! ## The other calls -/

theorem recvSdu_contents {sduId : ℤ} (h : Contents cfg tx)
    (hr : recvSdu cfg tx buffer sduId = .ok tx') : Contents cfg tx' := by
  by_cases hsize : buffer.length > nrSduMax
  · rw [recvSdu, if_pos hsize] at hr
    cases hr
  rw [recvSdu, if_neg hsize] at hr
  change (if tx.txSize + buffer.length > cfg.txMaxsize then _ else _) = _ at hr
  split at hr
  · injection hr with hr
    exact hr ▸ h
  obtain ⟨⟨txList, txEnd⟩, happ, hr⟩ := Machine.bind_ok hr
  obtain ⟨-, hsub⟩ := segmentListAppend_subset happ
  injection hr with hr
  subst hr
  refine ⟨h.txNext_range, fun i => ?_, fun s hs => ?_⟩
  · by_cases hi : i = tx.nextSdu
    · subst hi
      simpa [newSdu] using hsize
    · simpa [hi] using h.size_le i
  · rcases List.mem_cons.mp (hsub s hs) with rfl | hs
    · exact ⟨Nat.lt_succ_self _, by simp [newSegment, newSdu], fun _ => rfl⟩
    · have hne : s.sdu ≠ tx.nextSdu := (h.holds s hs).sdu_lt.ne
      exact ⟨(h.holds s hs).sdu_lt.trans (Nat.lt_succ_self _), by
        simpa [hne] using (h.holds s hs).le, (h.holds s hs).first⟩

theorem discardSdu_contents (h : Contents cfg tx) (sduId : ℤ) :
    Contents cfg (discardSdu cfg tx sduId) := by
  unfold discardSdu
  dsimp only
  split
  · exact h
  · rename_i cur next hd
    split
    · exact h
    · refine h.sub h.txNext_range rfl
        (@update_data _ _ (tx.heap cur.sdu).freeSegment rfl) fun s hs => h.holds s ?_
      have hsplit := List.takeWhile_append_dropWhile
        (p := fun s => decide ((tx.heap s.sdu).upperLayerId ≠ sduId)) (l := tx.txList)
      rw [hd] at hsplit
      rw [← hsplit]
      rcases List.mem_append.mp hs with hs | hs
      · exact List.mem_append_left _ hs
      · exact List.mem_append_right _ (List.mem_cons_of_mem _ hs)

end Contents

/-! ## Runs -/

section Runs

variable {cfg : UmConfig} {e e' : UmEntity} {op : Op} {events : List Event}

theorem contents_reestablishment (h : Contents e.cfg e.tx) :
    Contents e.cfg (reestablishment e).tx := by
  have hdata : ∀ (l : List Segment) (heap : ℕ → Sdu) (i : ℕ), (l.foldl
      (fun heap s => Function.update heap s.sdu (heap s.sdu).freeSegment) heap i).data =
        (heap i).data := by
    intro l
    induction l with
    | nil => exact fun _ _ => rfl
    | cons s l ih =>
        intro heap i
        have hfree := @update_data heap s.sdu (heap s.sdu).freeSegment rfl i
        exact (ih _ i).trans hfree
  refine h.sub ⟨le_rfl, ?_⟩ rfl (hdata e.tx.txList e.tx.heap) nofun
  exact h.txNext_range.1.trans_lt h.txNext_range.2

theorem contents_step (h : Contents e.cfg e.tx) (hs : step e op = .ok (e', events)) :
    e'.cfg = e.cfg ∧ Contents e.cfg e'.tx := by
  cases op with
  | recvPdu buffer =>
      cases hs
      exact ⟨rfl, h⟩
  | recvSdu buffer sduId =>
      obtain ⟨tx, htx, hs⟩ := bind_ok hs
      cases hs
      exact ⟨rfl, recvSdu_contents h htx⟩
  | generatePdu buffer =>
      obtain ⟨⟨tx, pdu⟩, htx, hs⟩ := bind_ok hs
      cases hs
      have hout := @generateTxPdu_outcome e.cfg e.tx buffer
      rw [htx] at hout
      refine ⟨rfl, ?_⟩
      cases hout with
      | refused => exact h
      | lost _ _ hc => exact hc h
      | sent _ _ hc => exact hc h
  | setTime now =>
      cases hs
      exact ⟨rfl, h⟩
  | discardSdu sduId =>
      cases hs
      exact ⟨rfl, discardSdu_contents h sduId⟩
  | reestablishment =>
      cases hs
      exact ⟨rfl, contents_reestablishment h⟩

/-- **In every state that can be reached, segments are parts of their SDUs.** -/
theorem contents_run {ops : List Op} (h : run (newUmEntity cfg) ops = .ok (e, events)) :
    Contents e.cfg e.tx := by
  refine run_invariant (I := fun e : UmEntity => Contents e.cfg e.tx) (P := fun _ _ => True)
    ?_ ?_ (along_of_forall (fun _ _ => trivial) ops _) h
  · intro e op e' events hI _ hs
    obtain ⟨hcfg, hc⟩ := contents_step hI hs
    rwa [hcfg]
  · refine ⟨⟨le_rfl, ?_⟩, fun _ => Nat.zero_le _, nofun⟩
    change 0 < cfg.snModulus
    unfold UmConfig.snModulus
    positivity

end Runs

/-! ## What is sent is read back -/

/-- The PDU is the one of a segment, and `recv_pdu` reads what `serialize_sdu` was given: the SN
where there is one, the flags, SO and the data. -/
def ReadBack (cfg : UmConfig) (tx : UmTx) (buffer pdu : List UInt8) : Prop :=
  ∃ s sdu, Serializes cfg tx buffer s sdu pdu ∧
    pdu.length = computePduHeaderSize cfg s.isFirst s.isLast + s.size ∧
    readPdu cfg pdu = some (umPdu sdu.sn s.so s.isFirst s.isLast (payload sdu.data s))

/-- `generate_pdu` returns, keeps to the grant, and a PDU that it makes is read back. -/
def GrantKept (e : UmEntity) (buffer : List UInt8) : Prop :=
  ∃ tx' pdu, generateTxPdu e.cfg e.tx buffer = .ok (tx', pdu) ∧ pdu.length ≤ buffer.length ∧
    (pdu = [] ∨ ReadBack e.cfg e.tx buffer pdu)

theorem Serializes.readBack {cfg : UmConfig} {tx : UmTx} {buffer pdu : List UInt8} {s : Segment}
    {sdu : Sdu} (h : Serializes cfg tx buffer s sdu pdu) (hc : Contents cfg tx) :
    ReadBack cfg tx buffer pdu := by
  obtain ⟨head, hhead, hsdu, hso, hfirst, hsize, hdata⟩ := h.head
  have hholds := hc.holds head (List.mem_of_head? hhead)
  have hle : s.so + s.size ≤ sdu.data.length := by
    have := hholds.le
    rw [hdata]
    omega
  have hmax : sdu.data.length ≤ nrSduMax := hdata ▸ hc.size_le head.sdu
  obtain ⟨hsn, hlt⟩ := hc.txNext_range
  rw [← h.sn] at hsn hlt
  have hlt' : sdu.sn.toNat < 2 ^ cfg.snFieldLength := by
    rw [UmConfig.snModulus] at hlt
    have hcast : ((2 ^ cfg.snFieldLength : ℕ) : ℤ) = 2 ^ cfg.snFieldLength := by push_cast; rfl
    omega
  have hso' : s.so < 2 ^ 16 := by
    unfold nrSduMax at hmax
    omega
  have hzero : s.isFirst = true → s.so = 0 := by
    rw [hfirst, hso]
    exact hholds.first
  obtain ⟨pdu₂, h₂, hlen, hread⟩ := @serializeSdu_spec cfg buffer s sdu
    ((Nat.le_add_right _ _).trans h.fits)
  obtain rfl : pdu₂ = pdu := Except.ok.inj (h₂.symm.trans h.eq)
  refine ⟨s, sdu, h, ?_, ?_⟩
  · rw [hlen, payload, List.length_take, List.length_drop]
    omega
  · rw [hread hlt' hso' hzero, Int.toNat_of_nonneg hsn]

theorem ReadBack.length_le {cfg : UmConfig} {tx : UmTx} {buffer pdu : List UInt8}
    (h : ReadBack cfg tx buffer pdu) : pdu.length ≤ buffer.length := by
  obtain ⟨s, sdu, hs, hlen, -⟩ := h
  rw [hlen]
  exact hs.fits

/-- **A PDU keeps to its grant and is read back.** -/
theorem grantKept {e : UmEntity} (h : Contents e.cfg e.tx) (buffer : List UInt8) :
    GrantKept e buffer := by
  have hout := @generateTxPdu_outcome e.cfg e.tx buffer
  unfold GrantKept
  generalize generateTxPdu e.cfg e.tx buffer = res at hout
  cases hout with
  | refused => exact ⟨_, _, rfl, Nat.zero_le _, .inl rfl⟩
  | lost => exact ⟨_, _, rfl, Nat.zero_le _, .inl rfl⟩
  | sent _ hs =>
      have hback := hs.readBack h
      exact ⟨_, _, rfl, hback.length_le, .inr hback⟩

end OaiCu.NrRlc.Um

namespace OaiCu.NrRlc

/-- In every state that an entity can reach and with every buffer, `generate_pdu` of UM keeps to
the grant, and what it makes is read back. So does `generate_pdu` of AM, which never runs out of
its buffer, exactly if it does not need an end of `wait_list` that is not there. -/
theorem generate_pdu_kept (buffer : List UInt8) :
    (∀ cfg ops e events, amRun (newAmEntity cfg) ops = .ok (e, events) →
      amGeneratePdu e buffer ≠ .error .exit ∧
        (AmGrantKept e buffer ↔ (SendsData e buffer.length → e.tx.TailUsable))) ∧
    (∀ cfg ops e events, Um.run (newUmEntity cfg) ops = .ok (e, events) →
      Um.GrantKept e buffer) := by
  constructor
  · intro cfg ops e events h
    exact amGrantKept_iff (contents_amRun h) buffer
  · intro cfg ops e events h
    exact Um.grantKept (Um.contents_run h) buffer

/-- An SDU of six bytes and a grant that takes some of them. -/
theorem generate_pdu_kept_cut :
    (∃ e events, amRun (newAmEntity testConfig) [.recvSdu [1, 2, 3, 4, 5, 6] 0] = .ok (e, events) ∧
      AmGrantKept e [255, 255, 255, 255, 255]) ∧
    (∃ e events, Um.run (newUmEntity (Um.exampleUm 6 (.inl rfl))) [.recvSdu [1, 2, 3, 4, 5, 6] 0] =
      .ok (e, events) ∧ Um.GrantKept e [255, 255, 255, 255, 255]) := by
  refine ⟨⟨_, _, rfl, ?_⟩, ⟨_, _, rfl, ?_⟩⟩
  · refine (((generate_pdu_kept _).1 testConfig [.recvSdu [1, 2, 3, 4, 5, 6] 0] _ _ rfl).2).mpr ?_
    exact fun _ => rfl
  · exact (generate_pdu_kept _).2 (Um.exampleUm 6 (.inl rfl)) [.recvSdu [1, 2, 3, 4, 5, 6] 0] _ _ rfl

/-- SN 0 is acked during the NACK of SN 1, `wait_end` is lost, and the retransmission of SN 1 is
appended to it. -/
theorem generate_pdu_null_wait_end :
    ¬ ∀ cfg ops e events, amRun (newAmEntity cfg) ops = .ok (e, events) →
      ∀ buffer, AmGrantKept e buffer := by
  intro h
  obtain ⟨e', pdu, hg, -⟩ := h testConfig [.recvSdu [0xaa] 0, .recvSdu [0xaa] 1, .recvSdu [0xaa] 2,
      .generatePdu [0, 0, 0], .generatePdu [0, 0, 0], .generatePdu [0, 0, 0],
      .recvPdu [0x00, 0x02, 0x80, 0x00, 0x08, 0x00, 0x10], .generatePdu [0, 0, 0],
      .recvPdu [0x00, 0x02, 0x80, 0x00, 0x10]] _ _ rfl [0, 0, 0]
  cases hg

end OaiCu.NrRlc
