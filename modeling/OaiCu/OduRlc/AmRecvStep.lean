import OaiCu.OduRlc.AmRecvWindow

/-!
# One step of the AM uplink

What a PDU and an expiry of the reassembly timer do to the window, the records and the timer.
-/

namespace OaiCu.OduRlc

variable {snLen : SnLen} {α : Type*}

/-! ## Placing a PDU -/

/-- The tables have the same records, as far as what is received goes. -/
def SameRcvd (recBufLst recBufLst' : RecBufLst (AmRecBuf α)) : Prop :=
  ∀ x, (recBufLst' x).map (·.allRcvd) = (recBufLst x).map (·.allRcvd)

theorem sameRcvd_update {recBufLst : RecBufLst (AmRecBuf α)} {sn : ℕ} {recBuf recBuf' : AmRecBuf α}
    (hr : recBufLst sn = some recBuf) (hall : recBuf'.allRcvd = recBuf.allRcvd) :
    SameRcvd recBufLst (Function.update recBufLst sn (some recBuf')) := by
  intro x
  by_cases hx : x = sn
  · rw [hx, Function.update_self, hr, Option.map_some, Option.map_some, hall]
  · rw [Function.update_of_ne hx]

/-- What placing a PDU makes of the table: if it is not placed there is nothing new, and else there
is a record of its SN, which was not complete. -/
structure Placing (sn : ℕ) (recBufLst : RecBufLst (AmRecBuf α))
    (r : Bool × RecBufLst (AmRecBuf α)) : Prop where
  rejected : r.1 = false → SameRcvd recBufLst r.2 ∧
    ∀ x, r.2 x ≠ recBufLst x → (r.2 x).any (·.allRcvd) = false
  placed : r.1 = true → (recBufLst sn).any (·.allRcvd) = false ∧
    ∃ recBuf, r.2 = Function.update recBufLst sn (some recBuf)

theorem placing_nothing (sn : ℕ) (recBufLst : RecBufLst (AmRecBuf α)) :
    Placing sn recBufLst (false, recBufLst) :=
  ⟨fun _ => ⟨fun _ => rfl, fun _ h => absurd rfl h⟩, nofun⟩

theorem rlcAmmAddRcvdSeg_placing (sn : ℕ) (seg : RcvdSeg α) (recBufLst : RecBufLst (AmRecBuf α)) :
    Placing sn recBufLst (rlcAmmAddRcvdSeg sn seg recBufLst) := by
  have hfirst : ∀ recBuf : SegStore α, recBufLst sn = none →
      (((recBufLst sn).getD { sn := sn }).toSegStore.addRcvdSeg seg).1 = true := fun _ hr => by
    rw [hr]
    rfl
  rw [rlcAmmAddRcvdSeg]
  cases hall : ((recBufLst sn).getD { sn := sn }).allRcvd with
  | true => simpa using placing_nothing sn recBufLst
  | false =>
      have hmiss : (recBufLst sn).any (·.allRcvd) = false := by
        cases hr : recBufLst sn with
        | none => rfl
        | some recBuf => simpa [hr] using hall
      simp only [Bool.false_eq_true, if_false]
      rcases hadd : ((recBufLst sn).getD { sn := sn }).addRcvdSeg seg with ⟨_ | _, segs⟩
      · -- the record was there, since a first segment is always taken
        have hsegs : segs = ((recBufLst sn).getD { sn := sn }).toSegStore := by
          have := SegStore.addRcvdSeg_rejected (congrArg Prod.fst hadd)
          rwa [hadd] at this
        cases hr : recBufLst sn with
        | none =>
            rw [hr] at hadd
            cases hadd
        | some recBuf =>
            rw [hr, Option.getD_some] at hsegs hall
            refine ⟨fun _ => ⟨sameRcvd_update hr (by rw [hsegs]), fun x hx => ?_⟩,
              Bool.noConfusion⟩
            by_cases hxs : x = sn
            · simpa [hxs, hsegs] using hall
            · exact absurd (Function.update_of_ne hxs _ _) hx
      · exact ⟨Bool.noConfusion, fun _ => ⟨hmiss, _, rfl⟩⟩

theorem placeComplete_placing (sn : ℕ) (pdu : α) (recBufLst : RecBufLst (AmRecBuf α)) :
    Placing sn recBufLst (AmUl.placeComplete sn pdu recBufLst) := by
  rw [AmUl.placeComplete]
  cases hall : ((recBufLst sn).getD { sn := sn }).allRcvd with
  | true => simpa using placing_nothing sn recBufLst
  | false =>
      refine ⟨nofun, fun _ => ⟨?_, _, rfl⟩⟩
      cases hr : recBufLst sn with
      | none => rfl
      | some recBuf => simpa [hr] using hall

namespace AmUl

variable {amUl : AmUl snLen α}

theorem rlcAmmUlPlacePduInRecBuf_placing (amHdr : AmUlHdr snLen) (pduSz : ℕ) (pdu : α) (amUl : AmUl snLen α) :
    Placing amHdr.sn amUl.recBufLst (amUl.rlcAmmUlPlacePduInRecBuf amHdr pduSz pdu) := by
  rw [rlcAmmUlPlacePduInRecBuf]
  split
  · exact placing_nothing _ _
  · split
    · exact placeComplete_placing _ _ _
    · exact rlcAmmAddRcvdSeg_placing _ _ _

theorem inRecvWindow_of_placed {amHdr : AmUlHdr snLen} {pduSz : ℕ} {pdu : α}
    (h : (amUl.rlcAmmUlPlacePduInRecBuf amHdr pduSz pdu).1 = true) :
    amUl.inRecvWindow amHdr.sn = true := by
  by_contra hout
  rw [rlcAmmUlPlacePduInRecBuf, if_pos (by simpa using hout)] at h
  cases h

/-! ## Passing an SDU up -/

/-- The entity apart from what is being joined. -/
def SameWindow (amUl amUl' : AmUl snLen α) : Prop :=
  ∃ expSn expSo partialSdu isOutOfSeq, amUl' = { amUl with
    expSn := expSn
    expSo := expSo
    partialSdu := partialSdu
    isOutOfSeq := isOutOfSeq }

theorem SameWindow.trans {amUl amUl' amUl'' : AmUl snLen α} (h : SameWindow amUl amUl')
    (h' : SameWindow amUl' amUl'') : SameWindow amUl amUl'' := by
  obtain ⟨_, _, _, _, rfl⟩ := h
  obtain ⟨a, b, c, d, rfl⟩ := h'
  exact ⟨a, b, c, d, rfl⟩

theorem rlcAmmProcPduOrSeg_sameWindow (sn so : ℕ) (si : Option Si) (pdu : α)
    (amUl : AmUl snLen α) : SameWindow amUl (amUl.rlcAmmProcPduOrSeg sn so si pdu).1 := by
  rcases si with _ | _ | _ | _ <;> simp only [rlcAmmProcPduOrSeg] <;> split_ifs <;>
    exact ⟨_, _, _, _, rfl⟩

theorem procSegs_sameWindow (sn : ℕ) (segs : List (StoredSeg α)) (amUl : AmUl snLen α) :
    SameWindow amUl (amUl.procSegs sn segs).1 := by
  induction segs generalizing amUl with
  | nil => exact ⟨_, _, _, _, rfl⟩
  | cons seg segs ih =>
      rw [procSegs]
      have h1 := rlcAmmProcPduOrSeg_sameWindow sn seg.so (some seg.si) seg.seg amUl
      have h2 : SameWindow (amUl.rlcAmmProcPduOrSeg sn seg.so (some seg.si) seg.seg).1
          { (amUl.rlcAmmProcPduOrSeg sn seg.so (some seg.si) seg.seg).1 with
            expSo := (seg.soEnd + 1) % 2 ^ 16 } := ⟨_, _, _, _, rfl⟩
      exact (h1.trans h2).trans (ih _)

theorem rlcAmmUlReassembleSdus_sameWindow (recBuf : AmRecBuf α) (amUl : AmUl snLen α) :
    (amUl.rlcAmmUlReassembleSdus recBuf).1.allRcvd = recBuf.allRcvd ∧
      SameWindow amUl (amUl.rlcAmmUlReassembleSdus recBuf).2.1 := by
  rw [rlcAmmUlReassembleSdus]
  split
  · rename_i pdu _ _
    have h := rlcAmmProcPduOrSeg_sameWindow recBuf.sn 0 none pdu amUl
    exact ⟨rfl, h.trans ⟨_, _, _, _, rfl⟩⟩
  · exact ⟨rfl, _, _, _, _, rfl⟩
  · have h := procSegs_sameWindow recBuf.sn recBuf.segLst
      ({ amUl with
        expSn := recBuf.sn
        expSo := 0 } : AmUl snLen α)
    have h0 : SameWindow amUl ({ amUl with
        expSn := recBuf.sn
        expSo := 0 } : AmUl snLen α) := ⟨_, _, _, _, rfl⟩
    exact ⟨rfl, (h0.trans h).trans ⟨_, _, _, _, rfl⟩⟩

/-- The entity with the same window, and the same received in its records. -/
def Passes (amUl amUl' : AmUl snLen α) : Prop :=
  ∃ recBufLst, SameRcvd amUl.recBufLst recBufLst ∧
    SameWindow { amUl with recBufLst := recBufLst } amUl'

theorem Passes.pos_eq {amUl' : AmUl snLen α} (h : Passes amUl amUl') (x : ℕ) :
    amUl'.pos x = amUl.pos x := by
  obtain ⟨_, -, _, _, _, _, rfl⟩ := h
  rfl

theorem Passes.fields {amUl' : AmUl snLen α} (h : Passes amUl amUl') :
    amUl'.rxNext = amUl.rxNext ∧ amUl'.rxHighestStatus = amUl.rxHighestStatus ∧
      amUl'.rxNextHighestRcvd = amUl.rxNextHighestRcvd := by
  obtain ⟨_, -, _, _, _, _, rfl⟩ := h
  exact ⟨rfl, rfl, rfl⟩

theorem Passes.sameRcvd {amUl' : AmUl snLen α} (h : Passes amUl amUl') :
    SameRcvd amUl.recBufLst amUl'.recBufLst := by
  obtain ⟨_, hs, _, _, _, _, rfl⟩ := h
  exact hs

theorem any_eq_of_map_eq {r r' : Option (AmRecBuf α)}
    (h : r'.map (·.allRcvd) = r.map (·.allRcvd)) : r'.any (·.allRcvd) = r.any (·.allRcvd) := by
  cases r <;> cases r' <;> simp_all

theorem Passes.rcvd_iff {amUl' : AmUl snLen α} (h : Passes amUl amUl') (x : ℕ) :
    amUl'.Rcvd x ↔ amUl.Rcvd x := by
  rw [Rcvd, Rcvd, allRcvd, allRcvd, any_eq_of_map_eq (h.sameRcvd x)]

theorem Passes.firstFrom_iff {amUl' : AmUl snLen α} (h : Passes amUl amUl') {sn first : ℕ} :
    amUl'.FirstFrom amUl'.Rcvd sn first ↔ amUl.FirstFrom amUl.Rcvd sn first := by
  constructor
  · rintro ⟨h1, h2, h3, h4⟩
    simp only [h.pos_eq, h.rcvd_iff] at h2 h3 h4
    exact ⟨h1, h2, h3, h4⟩
  · rintro ⟨h1, h2, h3, h4⟩
    refine ⟨h1, ?_, ?_, ?_⟩ <;> simpa only [h.pos_eq, h.rcvd_iff]

/-! ## The window -/

/-- `rxNext ≤ rxHighestStatus ≤ rxNextHighestRcvd ≤ rxNext + winSz`, as distances from `rxNext`,
and the records are below `rxNextHighestRcvd`. -/
structure Ordered (amUl : AmUl snLen α) : Prop where
  rxNext_lt : amUl.rxNext < snLen.modulus
  rxHighestStatus_lt : amUl.rxHighestStatus < snLen.modulus
  rxNextHighestRcvd_lt : amUl.rxNextHighestRcvd < snLen.modulus
  vrMr : amUl.vrMr = (amUl.rxNext + snLen.winSz) &&& snLen.snModMask
  rxNext_le : amUl.pos amUl.rxNext ≤ amUl.pos amUl.rxHighestStatus
  status_le : amUl.pos amUl.rxHighestStatus ≤ amUl.pos amUl.rxNextHighestRcvd
  highest_le : amUl.pos amUl.rxNextHighestRcvd ≤ snLen.winSz
  recBuf : ∀ sn, amUl.recBufLst sn ≠ none →
    sn < snLen.modulus ∧ amUl.pos sn < amUl.pos amUl.rxNextHighestRcvd

/-- Nothing is received at `rxNextHighestRcvd`. -/
theorem Ordered.missing (h : amUl.Ordered) : ¬ amUl.Rcvd amUl.rxNextHighestRcvd := by
  intro hc
  rw [Rcvd, allRcvd] at hc
  have := (h.recBuf amUl.rxNextHighestRcvd fun hn => by simp [hn] at hc).2
  omega

theorem Ordered.exists_first (h : amUl.Ordered) {sn : ℕ}
    (hle : amUl.pos sn ≤ amUl.pos amUl.rxNextHighestRcvd) :
    ∃ first, amUl.FirstFrom amUl.Rcvd sn first ∧
      amUl.pos first ≤ amUl.pos amUl.rxNextHighestRcvd := by
  obtain ⟨first, hf⟩ := exists_firstFrom h.rxNextHighestRcvd_lt hle h.missing
  exact ⟨first, hf, hf.pos_le h.rxNextHighestRcvd_lt hle h.missing⟩

theorem Passes.ordered {amUl' : AmUl snLen α} (hp : Passes amUl amUl') (h : amUl.Ordered) :
    amUl'.Ordered := by
  have hsame := hp.sameRcvd
  have hrec : ∀ sn, amUl'.recBufLst sn ≠ none → amUl.recBufLst sn ≠ none := fun sn hn he => by
    have := hsame sn
    rw [he, Option.map_none, Option.map_eq_none_iff] at this
    exact hn this
  obtain ⟨_, -, _, _, _, _, rfl⟩ := hp
  exact ⟨h.rxNext_lt, h.rxHighestStatus_lt, h.rxNextHighestRcvd_lt, h.vrMr, h.rxNext_le,
    h.status_le, h.highest_le, fun sn hn => h.recBuf sn (hrec sn hn)⟩

theorem passUp_passes {sn : ℕ} {recBuf : AmRecBuf α} (hr : amUl.recBufLst sn = some recBuf) :
    Passes amUl (amUl.passUp sn recBuf).1 := by
  obtain ⟨hall, hs⟩ := rlcAmmUlReassembleSdus_sameWindow recBuf amUl
  rw [passUp]
  simp only
  generalize (amUl.rlcAmmUlReassembleSdus recBuf).1 = recBuf' at hall ⊢
  generalize (amUl.rlcAmmUlReassembleSdus recBuf).2.1 = amUl' at hs ⊢
  obtain ⟨a, b, c, d, rfl⟩ := hs
  exact ⟨_, @sameRcvd_update _ _ _ _ { recBuf' with isDelvUpperLayer := true } hr hall,
    a, b, c, d, rfl⟩

theorem passUp_recBufLst (sn : ℕ) (recBuf : AmRecBuf α) (amUl : AmUl snLen α) :
    ∃ recBuf' : AmRecBuf α, recBuf'.isDelvUpperLayer = true ∧
      (amUl.passUp sn recBuf).1.recBufLst = Function.update amUl.recBufLst sn (some recBuf') := by
  obtain ⟨-, hs⟩ := rlcAmmUlReassembleSdus_sameWindow recBuf amUl
  rw [passUp]
  simp only
  generalize (amUl.rlcAmmUlReassembleSdus recBuf).2.1 = amUl' at hs ⊢
  obtain ⟨_, _, _, _, rfl⟩ := hs
  exact ⟨_, rfl, rfl⟩

theorem passUp_delivered {sn : ℕ} {recBuf : AmRecBuf α}
    (hd : ∀ x recBuf, x ≠ sn → amUl.recBufLst x = some recBuf → recBuf.allRcvd = true →
      recBuf.isDelvUpperLayer = true) : (amUl.passUp sn recBuf).1.Delivered := by
  obtain ⟨recBuf', hdone, he⟩ := passUp_recBufLst sn recBuf amUl
  intro x recBuf'' hx hall
  rw [he] at hx
  by_cases hxs : x = sn
  · rw [hxs, Function.update_self] at hx
    cases hx
    exact hdone
  · rw [Function.update_of_ne hxs] at hx
    exact hd x recBuf'' hxs hx hall

/-- What follows a PDU that was placed: `rxNext` and `rxHighestStatus` move to the first SN that is
missing. The record that is looked at last is none if nothing is left of the window. -/
structure Moved (amUl : AmUl snLen α)
    (r : (AmUl snLen α × Option (AmRecBuf α)) × List (AmUlOut α)) (amUl' : AmUl snLen α)
    (lo st : ℕ) : Prop where
  passes : Passes amUl amUl'
  delivered : amUl'.Delivered
  next : amUl.FirstFrom amUl.Rcvd amUl.rxNext lo
  status : amUl.FirstFrom amUl.Rcvd amUl.rxHighestStatus st
  eq : r.1.1 = ({ amUl' with rxHighestStatus := st } : AmUl snLen α).moved amUl'.rxNext lo
  recBuf : lo = amUl.rxNextHighestRcvd → r.1.2 = none

section

variable {sn : ℕ} {recBuf : AmRecBuf α}

/-- `updRxHighestStatus`, if it is called. -/
theorem scan_status (h : amUl.Ordered) (hsn : sn < snLen.modulus)
    (hlt : amUl.pos sn < amUl.pos amUl.rxNextHighestRcvd) (hr : amUl.Rcvd sn)
    (hmiss : amUl.rxHighestStatus ≠ sn → ¬ amUl.Rcvd amUl.rxHighestStatus)
    (recBuf : Option (AmRecBuf α)) : ∃ st recBuf',
      (if sn = amUl.rxHighestStatus then
        amUl.updRxHighestStatus (amUl.pos amUl.vrMr + 1 - amUl.pos ((sn + 1) &&& snLen.snModMask))
          ((sn + 1) &&& snLen.snModMask) (amUl.recBufLst ((sn + 1) &&& snLen.snModMask))
      else (amUl, recBuf)) = ({ amUl with rxHighestStatus := st }, recBuf') ∧
      amUl.FirstFrom amUl.Rcvd amUl.rxHighestStatus st ∧
      amUl.pos st ≤ amUl.pos amUl.rxNextHighestRcvd := by
  obtain ⟨st, hst, hle⟩ := h.exists_first h.status_le
  by_cases hs : sn = amUl.rxHighestStatus
  · rw [if_pos hs]
    rw [← hs] at hst ⊢
    obtain ⟨hnext, hf⟩ := hst.next h.rxNext_lt hsn hr
    have hedge := pos_edge h.rxNext_lt h.vrMr
    have := h.highest_le
    have := hf.le
    exact ⟨st, _, updRxHighestStatus_eq h.rxNext_lt _ (next_lt snLen _) hf (by omega), hst, hle⟩
  · rw [if_neg hs]
    exact ⟨amUl.rxHighestStatus, recBuf, rfl,
      firstFrom_self h.rxHighestStatus_lt (hmiss (Ne.symm hs)), h.status_le⟩

/-- `updRxNext`, if it is called. -/
theorem scan_rxNext (h : amUl.Ordered) (hd : amUl.Delivered)
    (hlt : amUl.pos sn < amUl.pos amUl.rxNextHighestRcvd)
    (hmiss : amUl.rxNext ≠ sn → ¬ amUl.Rcvd amUl.rxNext) (st : ℕ)
    (recBuf : Option (AmRecBuf α)) : ∃ lo recBuf',
      (if sn = amUl.rxNext then
        ({ amUl with rxHighestStatus := st } : AmUl snLen α).updRxNext
          (amUl.pos amUl.vrMr + 1 - amUl.pos sn) sn (amUl.recBufLst sn)
      else ({ amUl with rxHighestStatus := st }, recBuf)) =
        (({ amUl with rxHighestStatus := st } : AmUl snLen α).moved amUl.rxNext lo, recBuf') ∧
      amUl.FirstFrom amUl.Rcvd amUl.rxNext lo ∧
      (lo = amUl.rxNextHighestRcvd → recBuf' = none) := by
  have hzero := pos_rxNext h.rxNext_lt
  obtain ⟨lo, hlo, hle⟩ := @Ordered.exists_first _ _ _ h amUl.rxNext (by omega)
  by_cases hs : sn = amUl.rxNext
  · rw [if_pos hs, hs]
    have hedge := pos_edge h.rxNext_lt h.vrMr
    have := h.highest_le
    have hscan := @updRxNext_eq snLen α { amUl with rxHighestStatus := st } lo h.rxNext_lt
      (amUl.pos amUl.vrMr + 1 - amUl.pos amUl.rxNext) amUl.rxNext h.rxNext_lt hd
      ⟨hlo.lt, hlo.le, hlo.missing, hlo.received⟩ (by
        show amUl.pos lo < amUl.pos amUl.rxNext + _
        omega)
    refine ⟨lo, _, hscan, hlo, fun he => ?_⟩
    by_contra hn
    have := (h.recBuf lo hn).2
    rw [he] at this
    omega
  · rw [if_neg hs]
    refine ⟨amUl.rxNext, recBuf, ?_, firstFrom_self h.rxNext_lt (hmiss (Ne.symm hs)), fun he => ?_⟩
    · rw [moved_self, ← h.vrMr]
    · rw [← he] at hlt
      omega

theorem pduPlaced_moved (h : amUl.Ordered) (hsn : sn < snLen.modulus)
    (hr : amUl.recBufLst sn = some recBuf)
    (hd : ∀ x recBuf, x ≠ sn → amUl.recBufLst x = some recBuf → recBuf.allRcvd = true →
      recBuf.isDelvUpperLayer = true)
    (hN : amUl.rxNext ≠ sn → ¬ amUl.Rcvd amUl.rxNext)
    (hS : amUl.rxHighestStatus ≠ sn → ¬ amUl.Rcvd amUl.rxHighestStatus) :
    ∃ amUl' lo st, Moved amUl (amUl.pduPlaced sn) amUl' lo st := by
  have hlt := (h.recBuf sn (by rw [hr]; exact Option.some_ne_none _)).2
  have hrcvd : amUl.Rcvd sn ↔ recBuf.allRcvd = true := by rw [Rcvd, allRcvd, hr, Option.any_some]
  cases hall : recBuf.allRcvd with
  | false =>
      have hmiss : ¬ amUl.Rcvd sn := by rw [hrcvd, hall]; exact Bool.noConfusion
      have hmissN : ¬ amUl.Rcvd amUl.rxNext := by
        by_cases he : amUl.rxNext = sn
        · rwa [he]
        · exact hN he
      have hmissS : ¬ amUl.Rcvd amUl.rxHighestStatus := by
        by_cases he : amUl.rxHighestStatus = sn
        · rwa [he]
        · exact hS he
      refine ⟨amUl, amUl.rxNext, amUl.rxHighestStatus, ?_, ?_, firstFrom_self h.rxNext_lt hmissN,
        firstFrom_self h.rxHighestStatus_lt hmissS, ?_, fun he => ?_⟩
      · exact ⟨_, fun _ => rfl, _, _, _, _, rfl⟩
      · intro x recBuf' hx hall'
        by_cases hxs : x = sn
        · rw [hxs, hr] at hx
          cases hx
          rw [hall] at hall'
          cases hall'
        · exact hd x recBuf' hxs hx hall'
      · rw [pduPlaced, hr]
        simp only [hall, Bool.false_eq_true, if_false]
        rw [moved_self, ← h.vrMr]
      · rw [← he, pos_rxNext h.rxNext_lt] at hlt
        omega
  | true =>
      have hp := passUp_passes hr
      have hd' := @passUp_delivered _ _ _ _ recBuf hd
      rw [pduPlaced, hr]
      simp only [hall, if_true]
      generalize amUl.passUp sn recBuf = r at hp hd' ⊢
      obtain ⟨amUl', recBuf', out⟩ := r
      simp only at hp hd' ⊢
      have ho := hp.ordered h
      obtain ⟨hf1, hf2, hf3⟩ := hp.fields
      have hlt' : amUl'.pos sn < amUl'.pos amUl'.rxNextHighestRcvd := by
        rwa [hp.pos_eq, hp.pos_eq, hf3]
      obtain ⟨st, recBuf₂, he2, hst, -⟩ := scan_status ho hsn hlt' ((hp.rcvd_iff sn).2 (hrcvd.2 hall))
        (by rwa [hf2, hp.rcvd_iff]) (some recBuf')
      obtain ⟨lo, recBuf₃, he3, hlo, hnone⟩ := scan_rxNext ho hd' hlt' (by rwa [hf1, hp.rcvd_iff]) st
        recBuf₂
      rw [he2]
      simp only
      refine ⟨amUl', lo, st, hp, hd', ?_, ?_, ?_, ?_⟩
      · rw [← hp.firstFrom_iff, ← hf1]
        exact hlo
      · rw [← hp.firstFrom_iff, ← hf2]
        exact hst
      · exact congrArg Prod.fst he3
      · intro he
        refine (congrArg Prod.snd he3).trans (hnone ?_)
        rw [he, hf3]

end

end AmUl

end OaiCu.OduRlc
