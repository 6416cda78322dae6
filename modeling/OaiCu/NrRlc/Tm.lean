import OaiCu.NrRlc.UmContents

/-!
# RLC TM, and refused grants of all modes (`nr_rlc_entity_tm.c`)

TM sends SDUs as they are. A grant that is too small is refused, in all three modes with a return
value of 0; what a refused grant leaves behind is looked at here.
-/

namespace OaiCu.NrRlc

namespace Tm

/-- The transmitter of `nr_rlc_entity_tm_t`, with the heap of SDUs and the address of the next list
node as for `AmTx`. -/
structure TmTx where
  txMaxsize : ℤ
  txList : List Segment := []
  txEnd : Option ℕ := none
  txSize : ℤ := 0
  bstatusTxSize : ℤ := 0
  heap : ℕ → Sdu := fun _ => newSdu [] 0
  nextSdu : ℕ := 0
  nextSeg : ℕ := 0

/-- `generate_tx_pdu`, with the value it returns and the bytes it copies to the buffer. -/
def generateTxPdu (tx : TmTx) (buffer : List UInt8) : TmTx × ℕ × List UInt8 :=
  match tx.txList with
  | [] => (tx, 0, [])
  | sdu :: next =>
      if sdu.size > buffer.length then (tx, 0, [])
      else
        ({ tx with
            txList := next
            txEnd := if next.isEmpty then none else tx.txEnd
            txSize := tx.txSize - sdu.size
            bstatusTxSize := tx.bstatusTxSize - sdu.size
            heap := Function.update tx.heap sdu.sdu (tx.heap sdu.sdu).freeSegment },
          sdu.size, (tx.heap sdu.sdu).data.take sdu.size)

/-- `nr_rlc_entity_tm_recv_sdu`. -/
def recvSdu (tx : TmTx) (buffer : List UInt8) (sduId : ℤ) : Except Fault TmTx := do
  if buffer.length > nrSduMax then
    throw .exit
  if tx.txSize + buffer.length > tx.txMaxsize then
    return tx
  let sdu := newSegment tx.nextSeg tx.nextSdu buffer.length
  let (txList, txEnd) ← segmentListAppend tx.txList tx.txEnd sdu
  return { tx with
    txSize := tx.txSize + buffer.length
    heap := Function.update tx.heap tx.nextSdu (newSdu buffer sduId)
    nextSdu := tx.nextSdu + 1
    nextSeg := tx.nextSeg + 1
    txList, txEnd
    bstatusTxSize := tx.bstatusTxSize + sdu.size }

/-- What a refused grant is to leave alone. -/
structure Unchanged (tx tx' : TmTx) : Prop where
  txList : tx'.txList = tx.txList
  txSize : tx'.txSize = tx.txSize
  bstatus : tx'.bstatusTxSize = tx.bstatusTxSize
  refCount : ∀ i, (tx'.heap i).refCount = (tx.heap i).refCount

/-- A grant for which 0 is returned changes nothing. -/
def RefusedKept (tx : TmTx) (buffer : List UInt8) : Prop :=
  ∀ tx' pdu, generateTxPdu tx buffer = (tx', 0, pdu) → Unchanged tx tx'

/-- An SDU without data is sent, and 0 is returned. -/
theorem refusedKept_iff (tx : TmTx) (buffer : List UInt8) :
    RefusedKept tx buffer ↔ ∀ sdu ∈ tx.txList.head?, sdu.size ≠ 0 := by
  unfold RefusedKept generateTxPdu
  cases hl : tx.txList with
  | nil =>
      refine iff_of_true ?_ nofun
      rintro tx' pdu h
      cases h
      exact ⟨rfl, rfl, rfl, fun _ => rfl⟩
  | cons sdu next =>
      simp only [List.head?_cons, Option.mem_some_iff, forall_eq']
      split
      · rename_i hbig
        refine iff_of_true ?_ (by omega)
        rintro tx' pdu h
        cases h
        exact ⟨rfl, rfl, rfl, fun _ => rfl⟩
      · constructor
        · intro h hzero
          have hlist := (h _ _ (by rw [hzero])).txList
          rw [hl] at hlist
          exact List.cons_ne_self sdu next hlist.symm
        · intro hsize tx' pdu h
          simp only [Prod.mk.injEq] at h
          exact absurd h.2.1 hsize

end Tm

/-! ## UM -/

namespace Um

/-- What a refused grant is to leave alone. -/
structure Unchanged (tx tx' : UmTx) : Prop where
  txList : tx'.txList = tx.txList
  txSize : tx'.txSize = tx.txSize
  bstatus : tx'.bstatusTxSize = tx.bstatusTxSize
  txNext : tx'.txNext = tx.txNext
  refCount : ∀ i, (tx'.heap i).refCount = (tx.heap i).refCount

/-- A grant for which 0 is returned changes nothing. -/
def RefusedKept (cfg : UmConfig) (tx : UmTx) (buffer : List UInt8) : Prop :=
  ∀ tx', generateTxPdu cfg tx buffer = .ok (tx', []) → Unchanged tx tx'

theorem Serializes.pdu_ne {cfg : UmConfig} {tx : UmTx} {buffer pdu : List UInt8} {s : Segment}
    {sdu : Sdu} (h : Serializes cfg tx buffer s sdu pdu) : pdu ≠ [] := by
  obtain ⟨pdu₂, h₂, hlen, -⟩ := @serializeSdu_spec cfg buffer s sdu
    ((Nat.le_add_right _ _).trans h.fits)
  obtain rfl : pdu₂ = pdu := Except.ok.inj (h₂.symm.trans h.eq)
  rintro rfl
  rw [List.length_nil, computePduHeaderSize] at hlen
  omega

/-- The head of `tx_list` that needs room for an SN is gone, and 0 is returned. -/
theorem refusedKept_iff (cfg : UmConfig) (tx : UmTx) (buffer : List UInt8) :
    RefusedKept cfg tx buffer ↔ ¬ NoRoomForSn cfg tx buffer := by
  have hout := @generateTxPdu_outcome cfg tx buffer
  unfold RefusedKept
  generalize generateTxPdu cfg tx buffer = res at hout
  cases hout with
  | refused h =>
      refine iff_of_true ?_ h
      rintro tx' he
      obtain ⟨rfl, -⟩ := ok_pair he
      exact ⟨rfl, rfl, rfl, rfl, fun _ => rfl⟩
  | lost h hlist =>
      refine iff_of_false (fun hk => ?_) (not_not.mpr h)
      obtain ⟨-, -, s, hs, -⟩ := h
      have heq := (hk _ rfl).txList
      rw [hlist] at heq
      cases hl : tx.txList with
      | nil => simp [hl] at hs
      | cons x l =>
          rw [hl] at heq
          exact List.cons_ne_self x l heq.symm
  | sent h hs =>
      refine iff_of_true ?_ h
      rintro tx' he
      obtain ⟨-, rfl⟩ := ok_pair he
      exact absurd rfl hs.pdu_ne

end Um

/-! ## AM -/

/-- A STATUS PDU that is not written leaves the receiver as it is. -/
theorem generateStatusPdu_nil {cfg : AmConfig} {tCurrent : ℕ} {rx rx' : AmRx} {buffer : List UInt8}
    (h : generateStatusPdu cfg tCurrent rx buffer = .ok (rx', [])) : rx' = rx := by
  unfold generateStatusPdu at h
  split at h
  · unfold generateStatus at h
    obtain ⟨pdu, -, h⟩ := Machine.bind_ok h
    split at h
    · exact (ok_pair h).1.symm
    · rename_i hne
      obtain ⟨-, rfl⟩ := ok_pair h
      exact absurd rfl hne
  · exact (ok_pair h).1.symm

/-- What a refused grant is to leave alone. -/
structure AmUnchanged (e e' : AmEntity) : Prop where
  txList : e'.tx.txList = e.tx.txList
  retransmitList : e'.tx.retransmitList = e.tx.retransmitList
  waitList : e'.tx.waitList = e.tx.waitList
  txSize : e'.tx.txSize = e.tx.txSize
  bstatus : amBufferStatus e' = amBufferStatus e
  txNext : e'.tx.txNext = e.tx.txNext
  refCount : ∀ i, (e'.tx.heap i).refCount = (e.tx.heap i).refCount

/-- A grant for which 0 is returned changes nothing. -/
def AmRefusedKept (e : AmEntity) (buffer : List UInt8) : Prop :=
  ∀ e', amGeneratePdu e buffer = .ok (e', []) → AmUnchanged e e'

/-- Before anything is changed, the grant is compared with the header that is used in the end. -/
theorem amRefusedKept (e : AmEntity) (buffer : List UInt8) : AmRefusedKept e buffer := by
  intro e' h
  suffices heq : e' = e by
    subst heq
    exact ⟨rfl, rfl, rfl, rfl, rfl, rfl, fun _ => rfl⟩
  obtain ⟨rx, pdu₁, hstatus, -⟩ := generateStatusPdu_ok e buffer
  have hout := @generateDataPdu_outcome e.cfg e.tx e.tCurrent buffer
  rw [amGeneratePdu_eq hstatus] at h
  split at h
  · rename_i hpdu₁
    rw [List.isEmpty_iff] at hpdu₁
    subst hpdu₁
    obtain rfl := generateStatusPdu_nil hstatus
    generalize generateDataPdu e.cfg e.tCurrent e.tx buffer = res at hout h
    cases hout with
    | refused =>
        rw [Except.map] at h
        exact (ok_pair h).1.symm
    | fault =>
        rw [Except.map] at h
        cases h
    | sent _ _ hs =>
        rw [Except.map] at h
        obtain ⟨-, rfl⟩ := ok_pair h
        exact absurd rfl hs.pdu_ne
  · rename_i hpdu₁
    obtain ⟨-, rfl⟩ := ok_pair h
    exact absurd rfl hpdu₁

/-! ## All modes -/

/-- A refused grant leaves a TM entity unchanged unless an SDU without data is first in `tx_list`,
a UM entity unless the grant has room for a byte of a whole SDU but not for the SN that it needs
then, and an AM entity always. -/
theorem refused_grant (buffer : List UInt8) :
    (∀ tx : Tm.TmTx, Tm.RefusedKept tx buffer ↔ ∀ sdu ∈ tx.txList.head?, sdu.size ≠ 0) ∧
    (∀ cfg tx, Um.RefusedKept cfg tx buffer ↔ ¬ Um.NoRoomForSn cfg tx buffer) ∧
    (∀ e, AmRefusedKept e buffer) :=
  ⟨fun tx => Tm.refusedKept_iff tx buffer, fun cfg tx => Um.refusedKept_iff cfg tx buffer,
    fun e => amRefusedKept e buffer⟩

/-- An SDU of two bytes, a grant of two bytes, and SNs of twelve bits; and an SDU without data in
TM. -/
theorem refused_grant_takes_sdu :
    (∃ e events, Um.run (newUmEntity (Um.exampleUm 12 (.inr rfl))) [.recvSdu [1, 2] 0] =
      .ok (e, events) ∧ ¬ Um.RefusedKept e.cfg e.tx [0, 0]) ∧
    (∃ tx, Tm.recvSdu { txMaxsize := 1000 } [] 0 = .ok tx ∧ ¬ Tm.RefusedKept tx [0, 0]) := by
  refine ⟨⟨_, _, rfl, fun h => ?_⟩, ⟨_, rfl, fun h => ?_⟩⟩
  · exact absurd (h _ rfl).txList (by decide)
  · exact absurd (h _ _ rfl).txList (by decide)

end OaiCu.NrRlc
