import OaiCu.Lib.Ledger
import OaiCu.NrMac.UlHarqStep
import Mathlib.Tactic.IntervalCases

/-!
# The bytes that are scheduled in the uplink

`sched_ul_bytes` grows with every grant for a new transport block. Its size is taken off again by
`nr_rx_sdu` when the block is received, and by `abort_nr_ul_harq` when it is given up; `nr_rx_sdu` also
takes it off in round 3. With each call goes the list of the processes whose sizes it takes off.
-/

namespace OaiCu.NrMac

open Ledger

/-- What a call ends on: an assertion of the MAC, or the pid -1 of an empty list as an index. -/
inductive UlErr
  | mac (e : MacErr)
  | harqPid
  deriving DecidableEq, Repr

namespace UlUe

/-- What moves the uplink processes: a slot of the scheduler, or the PHY with a PUSCH. -/
inductive RxCall
  | schedule (s : UlSlot)
  | reception (crc : CrcPdu)

/-- The size of the transport block of a process. -/
def tbSize (u : UlUe) (pid : ℕ) : ℕ := (u.ulHarqProcesses pid).schedPusch.tbSize

/-- nr_rx_sdu for a UE that is known, with an SDU or with NULL. The process is the one at the head of
the list for feedback. -/
def nrRxSdu (u : UlUe) (sduP : Bool) : Except UlErr UlUe :=
  match u.ulHarq.feedback.head with
  | none => .error .harqPid
  | some pid =>
      .ok (if sduP || (u.ulHarqProcesses pid).round = 3 then
          { u with schedUlBytes := takeOff u.tbSize u.schedUlBytes pid }
        else u)

/-- The processes whose sizes nr_rx_sdu takes off. -/
def rxTaken (u : UlUe) (sduP : Bool) : List ℕ :=
  match u.ulHarq.feedback.head with
  | none => []
  | some pid => if sduP || (u.ulHarqProcesses pid).round = 3 then [pid] else []

/-- A process that has failed is given up in its last round. -/
def nackTaken (harqRoundMax : ℕ) (u : UlUe) (pid : ℕ) : List ℕ :=
  if (u.ulHarqProcesses pid).round + 1 ≥ harqRoundMax then [pid] else []

/-- The processes that are given up in the loop of handle_nr_ul_harq. -/
def skipTaken (harqRoundMax harqId : ℕ) : ℕ → UlUe → List ℕ
  | 0, _ => []
  | fuel + 1, u =>
      match u.ulHarq.feedback.head with
      | none => []
      | some pid =>
          if harqId = pid then []
          else
            match u.ulHarq.feedback.removeFront with
            | .error _ => []
            | .ok feedback =>
                let u := (u.setFeedback feedback).setHarq pid
                  { u.ulHarqProcesses pid with isWaiting := false }
                u.nackTaken harqRoundMax pid ++
                  skipTaken harqRoundMax harqId fuel (u.nack harqRoundMax pid)

/-- The processes that handle_nr_ul_harq gives up. -/
def crcTaken (harqRoundMax : ℕ) (u : UlUe) (crc : CrcPdu) : List ℕ :=
  skipTaken harqRoundMax crc.harqId (u.ulHarq.feedback.len + 1) u ++
    match skipTo harqRoundMax crc.harqId (u.ulHarq.feedback.len + 1) u with
    | .ok (some pid, u') => if crc.tbCrcStatus then u'.nackTaken harqRoundMax pid else []
    | _ => []

/-- A call, and the entries for what it grants and takes off. The PHY passes NULL for the SDU if the
CRC is wrong. -/
def rxStep (harqRoundMax : ℕ) (u : UlUe) : RxCall → Except UlErr (UlUe × List (Entry ℕ))
  | .schedule s =>
      match u.nrScheduleUlsch s with
      | .error e => .error (.mac e)
      | .ok (u', pdus) =>
          .ok (u', (pdus.filter fun pdu => pdu.rvIndex = 0).map fun pdu => .opened pdu.harqProcessId)
  | .reception crc =>
      match u.nrRxSdu (!crc.tbCrcStatus) with
      | .error e => .error e
      | .ok u₁ =>
          match u₁.handleNrUlHarq harqRoundMax crc with
          | .error e => .error (.mac e)
          | .ok u₂ =>
              .ok (u₂, (takeOffs u.tbSize u.schedUlBytes (u.rxTaken (!crc.tbCrcStatus))).2 ++
                (takeOffs u₁.tbSize u₁.schedUlBytes (u₁.crcTaken harqRoundMax crc)).2)

/-! ## What is taken off -/

variable {harqRoundMax harqId : ℕ} {u u' : UlUe} {av fb rt : List ℕ} {p : ℕ} {harq : UlHarq}

/-- What nr_rx_sdu does to the counter is what its entries say. -/
theorem nrRxSdu_eq {sduP : Bool} (hp : u.ulHarq.feedback.head = some p) :
    u.nrRxSdu sduP =
      .ok { u with schedUlBytes := (takeOffs u.tbSize u.schedUlBytes (u.rxTaken sduP)).1 } := by
  rw [nrRxSdu, rxTaken, hp]
  dsimp only
  split <;> rfl

theorem tbSize_setHarq (h : harq.schedPusch = (u.ulHarqProcesses p).schedPusch) :
    (u.setHarq p harq).tbSize = u.tbSize := by
  funext q
  rcases eq_or_ne q p with rfl | hne
  · rw [tbSize, setHarq_self, h, tbSize]
  · simp only [tbSize, setHarq, Function.update_of_ne hne]

theorem tbSize_nack (harqRoundMax : ℕ) (u : UlUe) (p : ℕ) :
    (u.nack harqRoundMax p).tbSize = u.tbSize := by
  rw [nack]
  split
  · exact tbSize_setHarq rfl
  · exact tbSize_setHarq rfl

/-- What a failed transmission does to the counter is what its entries say. -/
theorem schedUlBytes_nack (harqRoundMax : ℕ) (u : UlUe) (p : ℕ) :
    (u.nack harqRoundMax p).schedUlBytes =
      (takeOffs u.tbSize u.schedUlBytes (u.nackTaken harqRoundMax p)).1 := by
  rw [nack, nackTaken]
  split <;> rfl

/-- A transmission that has failed, in the ledger: it is given up, or it stays open. -/
theorem Inv.nack_taken (h : u.Inv harqRoundMax av (p :: fb) rt) (harq : UlHarq)
    (hw : harq.isWaiting = false) (hr : harq.round = (u.ulHarqProcesses p).round)
    (hs : harq.schedPusch = (u.ulHarqProcesses p).schedPusch) :
    ∃ f, u.ulHarq.feedback.removeFront = .ok f ∧
      ∃ av' rt', (((u.setFeedback f).setHarq p harq).nack harqRoundMax p).Inv
          harqRoundMax av' fb rt' ∧
        (p :: fb ++ rt).Perm
          (((u.setFeedback f).setHarq p harq).nackTaken harqRoundMax p ++ (fb ++ rt')) := by
  obtain ⟨f, hf, av', rt', hinv, hrt⟩ := h.nack harq hw hr hs
  refine ⟨f, hf, av', rt', hinv, ?_⟩
  rw [nackTaken, setHarq_self, hrt]
  split
  · exact List.Perm.refl _
  · rw [List.nil_append, ← List.append_assoc, List.cons_append]
    exact (List.perm_append_singleton p _).symm

/-!
## When the uplink bytes are right

A block that is received or given up in the CRC handler leaves the ledger open for one entry: the
handler makes it when it gives the block up, and `nr_rx_sdu` is to make it when the block is received.
It does so for the process at the head of the list, and also for one that fails in round 3.
-/

open Machine

/-! ## The CRC -/

/-- The block that the CRC says is received, if its process waits. -/
def received (crc : CrcPdu) (fb : List ℕ) : List ℕ :=
  if crc.tbCrcStatus = false ∧ crc.harqId ∈ fb then [crc.harqId] else []

/-- The loop gives up some of the processes before the one of the CRC, and the others are to be sent
again. -/
theorem skipTo_taken (harqId : ℕ) {fuel : ℕ} (h : u.Inv harqRoundMax av fb rt)
    (hlt : fb.length < fuel) :
    ∃ u', skipTo harqRoundMax harqId fuel u =
        .ok (if harqId ∈ fb then some harqId else none, u') ∧
      ∃ av' fb' rt', u'.Inv harqRoundMax av' fb' rt' ∧
        fb'.head? = (if harqId ∈ fb then some harqId else none) ∧ u'.tbSize = u.tbSize ∧
        u'.schedUlBytes =
          (takeOffs u.tbSize u.schedUlBytes (skipTaken harqRoundMax harqId fuel u)).1 ∧
        (fb ++ rt).Perm (skipTaken harqRoundMax harqId fuel u ++ (fb' ++ rt')) := by
  induction fb generalizing fuel u av rt with
  | nil =>
      obtain ⟨fuel, rfl⟩ := Nat.exists_eq_add_one_of_ne_zero (Nat.ne_of_gt hlt)
      rw [skipTo, skipTaken, h.parts.head_feedback]
      exact ⟨u, rfl, av, [], rt, h, rfl, rfl, rfl, List.Perm.refl _⟩
  | cons p fb ih =>
      obtain ⟨fuel, rfl⟩ := Nat.exists_eq_add_one_of_ne_zero (Nat.ne_zero_of_lt hlt)
      rw [skipTo, skipTaken, h.parts.head_feedback]
      simp only [List.head?_cons]
      by_cases hp : harqId = p
      · subst hp
        rw [if_pos rfl, if_pos rfl, if_pos List.mem_cons_self]
        exact ⟨u, rfl, av, harqId :: fb, rt, h, rfl, rfl, rfl, List.Perm.refl _⟩
      · rw [if_neg hp, if_neg hp]
        obtain ⟨f, hf, av₁, rt₁, hinv, hperm⟩ := h.nack_taken
          { u.ulHarqProcesses p with isWaiting := false } rfl rfl rfl
        rw [hf]
        obtain ⟨u', hskip, av', fb', rt', hinv', hhead, hsize, hbytes, hperm'⟩ :=
          ih hinv (Nat.lt_of_succ_lt_succ hlt)
        have hmem : harqId ∈ p :: fb ↔ harqId ∈ fb := by simp [hp]
        simp only [hmem]
        have hpop : ((u.setFeedback f).setHarq p
            { u.ulHarqProcesses p with isWaiting := false }).tbSize = u.tbSize :=
          tbSize_setHarq (u := u.setFeedback f) rfl
        rw [tbSize_nack, hpop] at hsize hbytes
        rw [schedUlBytes_nack, hpop] at hbytes
        refine ⟨u', hskip, av', fb', rt', hinv', hhead, hsize, ?_, ?_⟩
        · rw [hbytes, takeOffs_append]
          rfl
        · rw [List.append_assoc]
          exact hperm.trans (hperm'.append_left _)

/-- The CRC handler takes off what it gives up, and leaves what is received. -/
theorem handleNrUlHarq_taken (h : u.Inv harqRoundMax av fb rt) (crc : CrcPdu) :
    ∃ u', u.handleNrUlHarq harqRoundMax crc = .ok u' ∧
      ∃ av' fb' rt', u'.Inv harqRoundMax av' fb' rt' ∧ u'.tbSize = u.tbSize ∧
        u'.schedUlBytes =
          (takeOffs u.tbSize u.schedUlBytes (u.crcTaken harqRoundMax crc)).1 ∧
        (fb ++ rt).Perm
          (u.crcTaken harqRoundMax crc ++ (received crc fb ++ (fb' ++ rt'))) := by
  have hfuel : fb.length < u.ulHarq.feedback.len + 1 := by
    have := h.parts.feedback.length_le
    have := h.parts.feedback.len
    omega
  obtain ⟨u₁, hskip, av₁, fb₁, rt₁, h₁, hhead, hsize, hbytes, hperm⟩ :=
    skipTo_taken crc.harqId h hfuel
  rw [handleNrUlHarq, crcTaken, hskip]
  by_cases hmem : crc.harqId ∈ fb
  · rw [if_pos hmem] at hhead ⊢
    obtain ⟨fb₂, rfl⟩ : ∃ fb₂, fb₁ = crc.harqId :: fb₂ := by
      obtain ⟨fb₂, rfl⟩ := List.head?_eq_some_iff.mp hhead
      exact ⟨fb₂, rfl⟩
    have hwait : (u₁.ulHarqProcesses crc.harqId).isWaiting = true := h₁.parts.waiting_head
    dsimp only
    change ∃ u', (u₁.ulHarq.feedback.removeFront >>= _) = _ ∧ _
    cases hstatus : crc.tbCrcStatus with
    | true =>
        obtain ⟨f, hf, av', rt', hinv, hperm'⟩ := h₁.nack_taken
          { u₁.ulHarqProcesses crc.harqId with feedbackSlot := 65535, isWaiting := false }
          rfl rfl rfl
        rw [hf]
        change ∃ u', (if (!(u₁.ulHarqProcesses crc.harqId).isWaiting) = true then _ else _) = _ ∧ _
        rw [hwait]
        have hpop : ((u₁.setFeedback f).setHarq crc.harqId { u₁.ulHarqProcesses crc.harqId with
            feedbackSlot := 65535, isWaiting := false }).tbSize = u₁.tbSize :=
          tbSize_setHarq (u := u₁.setFeedback f) rfl
        have htaken : ((u₁.setFeedback f).setHarq crc.harqId { u₁.ulHarqProcesses crc.harqId with
            feedbackSlot := 65535, isWaiting := false }).nackTaken harqRoundMax crc.harqId =
            u₁.nackTaken harqRoundMax crc.harqId := by
          rw [nackTaken, setHarq_self, nackTaken]
        rw [htaken] at hperm'
        refine ⟨_, rfl, av', fb₂, rt', hinv, ?_, ?_, ?_⟩
        · simp only [if_true]
          rw [tbSize_nack, hpop, hsize]
        · simp only [if_true]
          rw [schedUlBytes_nack, hpop, htaken, takeOffs_append]
          rw [← hbytes, hsize]
          rfl
        · simp only [received, hstatus, Bool.true_eq_false, false_and, if_false, if_true,
            List.nil_append]
          rw [List.append_assoc]
          exact hperm.trans (hperm'.append_left _)
    | false =>
        obtain ⟨f, hf, hinv⟩ := h₁.done { u₁.ulHarqProcesses crc.harqId with
          feedbackSlot := 65535, isWaiting := false
          ndi := !(u₁.ulHarqProcesses crc.harqId).ndi, round := 0 } rfl rfl rfl
        rw [hf]
        change ∃ u', (if (!(u₁.ulHarqProcesses crc.harqId).isWaiting) = true then _ else _) = _ ∧ _
        rw [hwait]
        refine ⟨_, rfl, av₁ ++ [crc.harqId], fb₂, rt₁, hinv _ _, ?_, ?_, ?_⟩
        · rw [← hsize]
          exact tbSize_setHarq (u := u₁.setFeedback f) rfl
        · simp only [Bool.false_eq_true, if_false, List.append_nil]
          exact hbytes
        · simp only [received, hstatus, hmem, and_self, if_true, Bool.false_eq_true, if_false,
            List.append_nil]
          exact hperm
  · rw [if_neg hmem] at hhead ⊢
    obtain rfl := List.head?_eq_none_iff.mp hhead
    refine ⟨u₁, rfl, av₁, [], rt₁, h₁, hsize, ?_, ?_⟩
    · rw [List.append_nil]
      exact hbytes
    · simp only [received, hmem, and_false, if_false, List.append_nil, List.nil_append]
      exact hperm

/-! ## The scheduler -/

theorem nrRvRoundMap_eq_zero_iff {round rvIndex : ℕ} (h : nrRvRoundMap[round]? = some rvIndex) :
    rvIndex = 0 ↔ round = 0 := by
  have hlt : round < 4 := (List.getElem?_eq_some_iff.mp h).1
  interval_cases round <;> cases h <;> decide

theorem pfUl_bytes (u : UlUe) (room : UlRoom) :
    (u.pfUl room).schedUlBytes = u.schedUlBytes ∧ (u.pfUl room).tbSize = u.tbSize := by
  rw [pfUl]
  split
  · exact ⟨rfl, rfl⟩
  · cases u.ulHarq.retrans.head with
    | none => cases room.newData <;> exact ⟨rfl, rfl⟩
    | some p =>
        cases room.retrans with
        | none => exact ⟨rfl, rfl⟩
        | some retrans =>
            -- a new number of blocks keeps the size
            have hsize : ∀ info : SchedPusch,
                info.tbSize = (u.ulHarqProcesses p).schedPusch.tbSize →
                (u.setHarq p { u.ulHarqProcesses p with schedPusch := info }).tbSize =
                  u.tbSize := by
              intro info hinfo
              funext q
              rcases eq_or_ne q p with rfl | hne
              · rw [tbSize, setHarq_self, tbSize]
                exact hinfo
              · simp only [tbSize, setHarq, Function.update_of_ne hne]
            dsimp only [allocateUlRetransmission]
            split
            · exact ⟨rfl, hsize _ rfl⟩
            · exact ⟨rfl, hsize _ rfl⟩

/-- A slot in which nothing is sent, or in which the process that was taken is. -/
theorem nrScheduleUlsch_cases {s : UlSlot} {pdus : List PuschPdu}
    (h : u.nrScheduleUlsch s = .ok (u', pdus)) :
    (u' = u ∧ pdus = []) ∨
    ∃ v, v = pfUl { u with schedPusch := { u.schedPusch with slot := s.schedSlot } } s.room ∧
      ((u' = v ∧ pdus = []) ∨
        v.schedPusch.rbSize ≠ 0 ∧ ∃ taken,
          v.ulHarq.take (UlHarq.round ∘ v.ulHarqProcesses) v.schedPusch.ulHarqPid = .ok taken ∧
          sendTaken { v with
            ulHarq := taken.2
            schedPusch := { v.schedPusch with ulHarqPid := some taken.1 } } taken.1 =
              .ok (u', pdus)) := by
  rw [nrScheduleUlsch] at h
  split at h
  · obtain ⟨rfl, rfl⟩ := Prod.mk.inj (Except.ok.inj h)
    exact .inl ⟨rfl, rfl⟩
  · refine .inr ⟨_, rfl, ?_⟩
    dsimp only at h
    split at h
    · obtain ⟨rfl, rfl⟩ := Prod.mk.inj (Except.ok.inj h)
      exact .inl ⟨rfl, rfl⟩
    · rename_i hskip
      obtain ⟨taken, htake, hsend⟩ := bind_ok h
      refine .inr ⟨fun hrb => hskip ?_, taken, htake, hsend⟩
      rw [hrb]
      exact Bool.or_true s.ulFailure

/-- The process that was taken is sent: in round 0 its size is that of the new block, and is added. -/
theorem sendTaken_bytes {pdus : List PuschPdu} (h : u.sendTaken p = .ok (u', pdus)) :
    ∃ pdu, pdus = [pdu] ∧ pdu.harqProcessId = p ∧
      (pdu.rvIndex = 0 ↔ (u.ulHarqProcesses p).round = 0) ∧
      (∀ q ≠ p, u'.tbSize q = u.tbSize q) ∧
      if (u.ulHarqProcesses p).round = 0 then u'.schedUlBytes = u.schedUlBytes + u'.tbSize p
      else u'.schedUlBytes = u.schedUlBytes ∧ u'.tbSize p = u.tbSize p := by
  rw [sendTaken] at h
  dsimp only at h
  split at h
  · cases h
  · split at h
    · cases h
    · rename_i rvIndex hrv
      obtain ⟨rfl, rfl⟩ := Prod.mk.inj (Except.ok.inj h)
      refine ⟨_, rfl, rfl, nrRvRoundMap_eq_zero_iff hrv, fun q hq => ?_, ?_⟩
      · simp only [tbSize, setHarq, Function.update_of_ne hq]
        rfl
      · simp only [tbSize, setHarq_self]
        split
        · simp
        · simp

/-! ## The ledger -/

/-- The lists are right, and the counter and the ledger are those of what is under way. -/
def Booked (harqRoundMax : ℕ) (u : UlUe) (entries : List (Entry ℕ)) : Prop :=
  ∃ av fb rt, u.Inv harqRoundMax av fb rt ∧ Balanced u.tbSize u.schedUlBytes (fb ++ rt) entries

variable {entries : List (Entry ℕ)}

/-- The lists tell what is under way. -/
theorem booked_iff (h : u.Inv harqRoundMax av fb rt) :
    u.Booked harqRoundMax entries ↔ Balanced u.tbSize u.schedUlBytes (fb ++ rt) entries := by
  constructor
  · rintro ⟨av', fb', rt', h', hbal⟩
    exact hbal.perm (h'.parts.underway_unique h.parts)
  · intro hbal
    exact ⟨av, fb, rt, h, hbal⟩

theorem booked_addNewNrUe (harqRoundMax : ℕ) : addNewNrUe.Booked harqRoundMax [] :=
  ⟨_, _, _, inv_addNewNrUe harqRoundMax, .nil _⟩

/-- A slot opens an entry for a new block, and for no other one. -/
theorem Booked.schedule {s : UlSlot} {pdus : List PuschPdu} (h : u.Booked harqRoundMax entries)
    (hs : u.nrScheduleUlsch s = .ok (u', pdus)) :
    u'.Booked harqRoundMax (entries ++
      (pdus.filter fun pdu => pdu.rvIndex = 0).map fun pdu => .opened pdu.harqProcessId) := by
  obtain ⟨av, fb, rt, h, hbal⟩ := h
  rcases nrScheduleUlsch_cases hs with ⟨rfl, rfl⟩ | ⟨v, hv, hrest⟩
  · exact ⟨av, fb, rt, h, by simpa using hbal⟩
  have hslot : { u with schedPusch := { u.schedPusch with slot := s.schedSlot } }.Inv
      harqRoundMax av fb rt := ⟨h.parts, h.saved, h.pending⟩
  have hinv := (hslot.pfUl s.room).1
  have hbytes := pfUl_bytes { u with schedPusch := { u.schedPusch with slot := s.schedSlot } } s.room
  rw [← hv] at hinv hbytes
  have hbal : Balanced v.tbSize v.schedUlBytes (fb ++ rt) entries := by
    rw [hbytes.1, hbytes.2]
    exact hbal
  rcases hrest with ⟨rfl, rfl⟩ | ⟨hrb, taken, htake, hsend⟩
  · exact ⟨av, fb, rt, hinv, by simpa using hbal⟩
  have hfree : v.schedPusch.ulHarqPid = none → av ≠ [] := by
    rintro hpid rfl
    rw [hpid, hinv.parts.take_none] at htake
    cases htake
  obtain ⟨p, l, av', rt', htake', hl, hp, hfb, hround, hav, hrt, -, hparts⟩ :=
    hinv.parts.take v.schedPusch.ulHarqPid (hinv.pending hrb) hfree
  obtain rfl : taken = (p, l) := Except.ok.inj (htake.symm.trans htake')
  have hinv' : u'.Inv harqRoundMax av' (fb ++ [p]) rt' := by
    rcases sendTaken_right hinv hfb hp hrt hround hl hparts rfl with
      ⟨he, -⟩ | ⟨u₁, out, hok, hinv'⟩
    · cases he.symm.trans hsend
    · obtain ⟨rfl, -⟩ := Prod.mk.inj (Except.ok.inj (hok.symm.trans hsend))
      exact hinv'
  have hperm := hinv.parts.underway_perm hparts hav hrt
  obtain ⟨pdu, rfl, hpdu, hrv, hother, hbook⟩ := sendTaken_bytes hsend
  refine ⟨av', fb ++ [p], rt', hinv', ?_⟩
  change ∀ q ≠ p, u'.tbSize q = v.tbSize q at hother
  change if (v.ulHarqProcesses p).round = 0 then u'.schedUlBytes = v.schedUlBytes + u'.tbSize p
    else u'.schedUlBytes = v.schedUlBytes ∧ u'.tbSize p = v.tbSize p at hbook
  change pdu.rvIndex = 0 ↔ (v.ulHarqProcesses p).round = 0 at hrv
  by_cases h0 : (v.ulHarqProcesses p).round = 0
  · have hnew : p ∉ rt := fun hp => absurd h0 (Nat.ne_of_gt (hinv.parts.round_retrans p hp).1)
    rw [if_neg hnew] at hperm
    rw [if_pos h0] at hbook
    simp only [hrv.mpr h0, decide_true, List.filter_cons_of_pos, List.filter_nil, List.map_cons,
      List.map_nil, hpdu]
    rw [hbook]
    refine (Balanced.opened (hbal.congr fun q hq => hother q ?_) p).perm hperm.symm
    rintro rfl
    exact (List.mem_append.mp hq).elim hfb hnew
  · rw [if_pos (hround h0)] at hperm
    rw [if_neg h0] at hbook
    have hsize : u'.tbSize = v.tbSize := by
      funext q
      rcases eq_or_ne q p with rfl | hne
      · exact hbook.2
      · exact hother q hne
    have hrv' : ¬ pdu.rvIndex = 0 := fun h => h0 (hrv.mp h)
    simp only [hrv', decide_false, Bool.false_eq_true, not_false_eq_true, List.filter_cons_of_neg,
      List.filter_nil, List.map_nil, List.append_nil]
    rw [hbook.1, hsize]
    exact hbal.perm hperm.symm

/-- What the PHY delivers in a state: the PUSCH of the process at the head of the list if it could be
decoded, and one that is not in round 3 if not. -/
def Answered (u : UlUe) : RxCall → Prop
  | .schedule _ => True
  | .reception crc =>
      ∃ p, u.ulHarq.feedback.head = some p ∧ (crc.tbCrcStatus = false → crc.harqId = p) ∧
        (crc.tbCrcStatus = true → (u.ulHarqProcesses p).round ≠ 3)

/-- nr_rx_sdu takes off what the CRC handler leaves. -/
theorem rxTaken_perm_received_iff (hp : u.ulHarq.feedback.head = some p) (crc : CrcPdu)
    (fb : List ℕ) :
    (received crc (p :: fb)).Perm (u.rxTaken (!crc.tbCrcStatus)) ↔ u.Answered (.reception crc) := by
  rw [rxTaken, hp, received, Answered]
  simp only [hp, Option.some.injEq, exists_eq_left']
  cases hstatus : crc.tbCrcStatus with
  | true => by_cases hround : (u.ulHarqProcesses p).round = 3 <;> simp [hround]
  | false =>
      simp only [true_and, Bool.not_false, Bool.true_or, if_true, true_implies,
        Bool.false_eq_true, false_implies, and_true]
      split
      · rw [List.perm_singleton, List.singleton_inj]
      · rename_i hno
        refine iff_of_false (fun hperm => ?_) fun he => hno (he ▸ List.mem_cons_self)
        cases hperm.length_eq

/-- A reception keeps the ledger balanced exactly if it is one of those that the PHY may deliver. -/
theorem Booked.reception (h : u.Booked harqRoundMax entries) (crc : CrcPdu) :
    (u.ulHarq.feedback.head = none ∧
        u.rxStep harqRoundMax (.reception crc) = .error .harqPid) ∨
      ∃ u' out, u.rxStep harqRoundMax (.reception crc) = .ok (u', out) ∧
        (u'.Booked harqRoundMax (entries ++ out) ↔ u.Answered (.reception crc)) := by
  obtain ⟨av, fb, rt, h, hbal⟩ := h
  rw [rxStep]
  cases fb with
  | nil =>
      have hhead := h.parts.head_feedback
      refine .inl ⟨hhead, ?_⟩
      rw [nrRxSdu, hhead]
      rfl
  | cons p fb =>
      have hhead : u.ulHarq.feedback.head = some p := h.parts.head_feedback
      rw [nrRxSdu_eq hhead]
      dsimp only
      have hinv : { u with schedUlBytes := (takeOffs u.tbSize u.schedUlBytes
          (u.rxTaken (!crc.tbCrcStatus))).1 }.Inv harqRoundMax av (p :: fb) rt :=
        ⟨h.parts, h.saved, h.pending⟩
      obtain ⟨u', hok, av', fb', rt', hinv', hsize, hbytes, hperm⟩ := handleNrUlHarq_taken hinv crc
      rw [hok]
      refine .inr ⟨u', _, rfl, ?_⟩
      rw [← rxTaken_perm_received_iff hhead crc fb, booked_iff hinv', hbytes, hsize]
      exact hbal.takeOffs_takeOffs_iff hperm

/-- At every state of a run that is reached, the lists partition the processes, the counter is the sum
over those under way, every grant was taken off once unless it is under way, and there was always
enough to take off. And no call uses the pid -1. -/
structure BytesRight (harqRoundMax : ℕ) (calls : List RxCall) : Prop where
  pid : ∀ e, run (rxStep harqRoundMax) addNewNrUe calls = .error e → e ≠ .harqPid
  booked : ∀ pre u entries, pre <+: calls →
    run (rxStep harqRoundMax) addNewNrUe pre = .ok (u, entries) → u.Booked harqRoundMax entries

/-- The bytes are right along a run exactly if every PUSCH is that of the process at the head of the
list, and each one that cannot be decoded is not in round 3. -/
theorem ulBytes_right_iff (harqRoundMax : ℕ) (calls : List RxCall) :
    BytesRight harqRoundMax calls ↔
      Along (rxStep harqRoundMax) Answered addNewNrUe calls := by
  rw [← journal_iff_along (Booked harqRoundMax) (· ≠ .harqPid) ?_ ?_
    (booked_addNewNrUe harqRoundMax)]
  · exact ⟨fun h => ⟨h.pid, h.booked⟩, fun h => ⟨h.1, h.2⟩⟩
  · intro u entries call u' out hbook hs
    cases call with
    | schedule s =>
        rw [rxStep] at hs
        split at hs
        · cases hs
        · rename_i v pdus hsched
          obtain ⟨rfl, rfl⟩ := Prod.mk.inj (Except.ok.inj hs)
          exact iff_of_true (hbook.schedule hsched) trivial
    | reception crc =>
        rcases hbook.reception crc with ⟨-, he⟩ | ⟨u₁, out₁, hok, hiff⟩
        · cases he.symm.trans hs
        · obtain ⟨rfl, rfl⟩ := Prod.mk.inj (Except.ok.inj (hok.symm.trans hs))
          exact hiff
  · intro u entries call e hbook hs
    cases call with
    | schedule s =>
        refine iff_of_true ?_ trivial
        rw [rxStep] at hs
        split at hs
        · cases hs
          exact nofun
        · cases hs
    | reception crc =>
        rcases hbook.reception crc with ⟨hhead, he⟩ | ⟨u₁, out₁, hok, -⟩
        · cases he.symm.trans hs
          refine iff_of_false (fun h => h rfl) ?_
          rintro ⟨p, hp, -⟩
          cases hhead.symm.trans hp
        · cases hok.symm.trans hs

/-- A slot in which `pf_ul` gives the UE 5 RBs, for 100 bytes of new data unless there is a block to be
sent again. -/
def grantSlot : UlSlot where
  dlSlot := true
  doSched := true
  schedSlot := 8
  room :=
    { reached := true, retrans := some { newRbSize := none, cce := true }, newData := some (5, 100) }
  ulFailure := false

/-- A block that is not received in rounds 0 to 3, and another one that is granted before round 3
ends. -/
def lastRound : List RxCall :=
  [.schedule grantSlot, .reception ⟨0, true⟩, .schedule grantSlot, .reception ⟨0, true⟩,
    .schedule grantSlot, .reception ⟨0, true⟩, .schedule grantSlot, .schedule grantSlot,
    .reception ⟨0, true⟩]

/-- The first block is taken off twice, and the counter is 0 while the second one is under way. -/
theorem ulBytes_wrong : ¬ BytesRight 4 lastRound := by
  intro h
  have hrun : (match run (rxStep 4) addNewNrUe lastRound with
      | .error _ => false
      | .ok (_, entries) =>
          entries.countP (Entry.opens 0) < entries.countP (Entry.closes 0)) = true := by
    decide
  cases hr : run (rxStep 4) addNewNrUe lastRound with
  | error e =>
      rw [hr] at hrun
      cases hrun
  | ok r =>
      rw [hr] at hrun
      obtain ⟨av, fb, rt, -, hbal⟩ := h.booked lastRound r.1 r.2 (List.prefix_refl _) hr
      have honce := hbal.once 0
      have hlt := of_decide_eq_true hrun
      omega

end UlUe

end OaiCu.NrMac
