import OaiCu.OduRlc.AmRecvStep
import OaiCu.Lib.Machine

/-!
# Runs of the AM uplink

The window stays right and the reassembly timer watches every gap, as long as the timer is not
missed because the SNs wrap around between `rxNext` and `rxNextHighestRcvd`. An expiry of the
timer does what it should unless the SN it was started for has been received meanwhile, or is
`vrMr`.
-/

namespace OaiCu.OduRlc

variable {snLen : SnLen} {α : Type*}

namespace AmUl

variable {amUl : AmUl snLen α}

/-- The state of the window and of the timer. -/
structure WindowOk (amUl : AmUl snLen α) : Prop extends amUl.Ordered where
  rxNext_missing : ¬ amUl.Rcvd amUl.rxNext
  status_missing : ¬ amUl.Rcvd amUl.rxHighestStatus
  no_gap : amUl.reAsmblTmr = false → ∀ sn < snLen.modulus,
    amUl.pos amUl.rxHighestStatus ≤ amUl.pos sn → amUl.pos sn < amUl.pos amUl.rxNextHighestRcvd →
      amUl.Rcvd sn

/-- What an expiry of the timer is to do: `rxHighestStatus` is the first SN from
`rxNextStatusTrig` on that is not fully received, and a STATUS is sent or waits for the prohibit
timer. -/
structure ExpiryRight (amUl amUl' : AmUl snLen α) (out : List (AmUlOut α)) : Prop where
  first : amUl.FirstFrom amUl.Rcvd amUl.rxNextStatusTrig amUl'.rxHighestStatus
  status : amUl'.staTrg = true ∨ .staPdu ∈ out

/-- The SN behind the highest one received, with `sn`. -/
def nextHighest (sn : ℕ) (amUl : AmUl snLen α) : ℕ :=
  if amUl.pos amUl.rxNextHighestRcvd ≤ amUl.pos sn then (sn + 1) &&& snLen.snModMask
  else amUl.rxNextHighestRcvd

/-- The PDU is placed in the record of its SN. -/
def Places (amUl : AmUl snLen α) (amHdr : AmUlHdr snLen) (pduSz : ℕ) (pdu : α) : Prop :=
  ¬ (amHdr.si = some .last ∧ amHdr.so = 0) ∧
    (amUl.rlcAmmUlPlacePduInRecBuf amHdr pduSz pdu).1 = true

/-- Fully received, with the PDU. -/
def RcvdWith (amUl : AmUl snLen α) (amHdr : AmUlHdr snLen) (pduSz : ℕ) (pdu : α) (sn : ℕ) : Prop :=
  ((amUl.rlcAmmUlPlacePduInRecBuf amHdr pduSz pdu).2 sn).any (·.allRcvd) = true

/-- The reassembly timer does not start for a gap: it is not running, or what it was started for
is received, something from `rxHighestStatus` on is missing, and the SNs wrap around between the
first SN that is missing and the highest one received. -/
def StartMissed (amUl : AmUl snLen α) (amHdr : AmUlHdr snLen) (pduSz : ℕ) (pdu : α) : Prop :=
  amUl.Places amHdr pduSz pdu ∧
    (∃ sn < snLen.modulus, amUl.pos amUl.rxHighestStatus ≤ amUl.pos sn ∧
      amUl.pos sn < amUl.pos (amUl.nextHighest amHdr.sn) ∧ ¬ amUl.RcvdWith amHdr pduSz pdu sn) ∧
    ∃ first, amUl.FirstFrom (amUl.RcvdWith amHdr pduSz pdu) amUl.rxNext first ∧
      amUl.nextHighest amHdr.sn < first ∧
      (amUl.reAsmblTmr = false ∨ amUl.pos amUl.rxNextStatusTrig ≤ amUl.pos first)

/-- The timer expires for an SN below `vrMr` that is not fully received, or `rxHighestStatus` and
the STATUS are already where they should be. -/
def ExpiryOk (amUl : AmUl snLen α) : Prop :=
  (amUl.rxNextStatusTrig ≠ amUl.vrMr ∧ ¬ amUl.Rcvd amUl.rxNextStatusTrig) ∨
    (amUl.FirstFrom amUl.Rcvd amUl.rxNextStatusTrig amUl.rxHighestStatus ∧ amUl.staTrg = true)

/-- What the entity keeps besides: complete SDUs have been passed up, and the timer runs for SNs
of the window. -/
structure Inv (amUl : AmUl snLen α) : Prop extends amUl.WindowOk where
  delivered : amUl.Delivered
  trig : amUl.reAsmblTmr = true → amUl.rxNextStatusTrig < snLen.modulus ∧
    0 < amUl.pos amUl.rxNextStatusTrig ∧
    amUl.pos amUl.rxNextStatusTrig ≤ amUl.pos amUl.rxNextHighestRcvd

theorem inv_start : ({} : AmUl snLen α).Inv where
  rxNext_lt := snLen.modulus_pos
  rxHighestStatus_lt := snLen.modulus_pos
  rxNextHighestRcvd_lt := snLen.modulus_pos
  vrMr := by
    have := snLen.winSz_cases
    rw [SnLen.and_mask]
    show snLen.winSz = (0 + snLen.winSz) % snLen.modulus
    rw [Nat.zero_add, Nat.mod_eq_of_lt (by omega)]
  rxNext_le := Nat.le_refl _
  status_le := Nat.le_refl _
  highest_le := by
    rw [show ({} : AmUl snLen α).pos ({} : AmUl snLen α).rxNextHighestRcvd = 0 from
      @pos_rxNext _ _ ({} : AmUl snLen α) snLen.modulus_pos]
    exact Nat.zero_le _
  recBuf := fun _ h => absurd rfl h
  rxNext_missing := nofun
  status_missing := nofun
  no_gap := fun _ _ _ h1 h2 => absurd (Nat.lt_of_le_of_lt h1 h2) (Nat.lt_irrefl _)
  delivered := nofun
  trig := nofun

/-- The STATUS and its prohibit timer do not touch the window. -/
theorem Inv.sta (h : amUl.Inv) (staTrg gatherStaPduInfo staProhTmr : Bool) :
    ({ amUl with
      staTrg := staTrg
      gatherStaPduInfo := gatherStaPduInfo
      staProhTmr := staProhTmr } : AmUl snLen α).Inv :=
  ⟨⟨⟨h.rxNext_lt, h.rxHighestStatus_lt, h.rxNextHighestRcvd_lt, h.vrMr, h.rxNext_le, h.status_le,
    h.highest_le, h.recBuf⟩, h.rxNext_missing, h.status_missing, h.no_gap⟩, h.delivered, h.trig⟩

/-! ## A PDU that is placed -/

theorem updRxNextHighestRcvd_eq (sn : ℕ) (amUl : AmUl snLen α) :
    amUl.updRxNextHighestRcvd sn = { amUl with rxNextHighestRcvd := amUl.nextHighest sn } := by
  rw [updRxNextHighestRcvd, nextHighest]
  split <;> rfl

theorem Ordered.pos_nextHighest (h : amUl.Ordered) {sn : ℕ} (hsn : sn < snLen.modulus)
    (hin : amUl.pos sn < snLen.winSz) :
    amUl.nextHighest sn < snLen.modulus ∧ amUl.pos sn < amUl.pos (amUl.nextHighest sn) ∧
      amUl.pos amUl.rxNextHighestRcvd ≤ amUl.pos (amUl.nextHighest sn) ∧
      amUl.pos (amUl.nextHighest sn) ≤ snLen.winSz := by
  have hhigh := h.highest_le
  have hw := snLen.winSz_cases
  rw [nextHighest]
  split
  · rw [pos_next h.rxNext_lt hsn (by omega)]
    exact ⟨next_lt snLen _, by omega, by omega, by omega⟩
  · exact ⟨h.rxNextHighestRcvd_lt, by omega, Nat.le_refl _, hhigh⟩

/-- The entity with a new record. -/
def stored (sn : ℕ) (recBuf : AmRecBuf α) (amUl : AmUl snLen α) : AmUl snLen α :=
  { amUl with
    recBufLst := Function.update amUl.recBufLst sn (some recBuf)
    rxNextHighestRcvd := amUl.nextHighest sn }

theorem stored_of_ne {sn x : ℕ} (h : x ≠ sn) (recBuf : AmRecBuf α) :
    (amUl.stored sn recBuf).recBufLst x = amUl.recBufLst x := Function.update_of_ne h _ _

theorem Ordered.stored (h : amUl.Ordered) {sn : ℕ} (hsn : sn < snLen.modulus)
    (hin : amUl.pos sn < snLen.winSz) (recBuf : AmRecBuf α) : (amUl.stored sn recBuf).Ordered := by
  obtain ⟨h1, h2, h3, h4⟩ := h.pos_nextHighest hsn hin
  refine ⟨h.rxNext_lt, h.rxHighestStatus_lt, h1, h.vrMr, h.rxNext_le, ?_, h4, fun x hx => ?_⟩
  · exact h.status_le.trans h3
  · by_cases hxs : x = sn
    · rw [hxs]
      exact ⟨hsn, h2⟩
    · rw [stored_of_ne hxs] at hx
      obtain ⟨hlt, hpos⟩ := h.recBuf x hx
      exact ⟨hlt, Nat.lt_of_lt_of_le hpos h3⟩

/-- The window after `rxNext` and `rxHighestStatus` have moved. -/
theorem Ordered.moved (h : amUl.Ordered) {lo st : ℕ} (hlo : amUl.FirstFrom amUl.Rcvd amUl.rxNext lo)
    (hst : amUl.FirstFrom amUl.Rcvd amUl.rxHighestStatus st) :
    (({ amUl with rxHighestStatus := st } : AmUl snLen α).moved amUl.rxNext lo).Ordered := by
  have hzero := pos_rxNext h.rxNext_lt
  have hle : amUl.pos lo ≤ amUl.pos st := hlo.pos_le hst.lt (by omega) hst.missing
  have hle' : amUl.pos st ≤ amUl.pos amUl.rxNextHighestRcvd :=
    hst.pos_le h.rxNextHighestRcvd_lt h.status_le h.missing
  have hhigh := h.highest_le
  have hmove : ∀ x < snLen.modulus,
      (({ amUl with rxHighestStatus := st } : AmUl snLen α).moved amUl.rxNext lo).pos x =
        if amUl.pos lo ≤ amUl.pos x then amUl.pos x - amUl.pos lo
        else amUl.pos x + snLen.modulus - amUl.pos lo := fun x hx =>
    @pos_move _ _ amUl _ h.rxNext_lt hlo.lt _ hx
  refine ⟨hlo.lt, hst.lt, h.rxNextHighestRcvd_lt, rfl, ?_, ?_, ?_, fun x hx => ?_⟩
  · rw [@pos_rxNext _ _ (({ amUl with rxHighestStatus := st } : AmUl snLen α).moved _ lo) hlo.lt]
    exact Nat.zero_le _
  · show AmUl.pos _ st ≤ AmUl.pos _ amUl.rxNextHighestRcvd
    rw [hmove st hst.lt, hmove _ h.rxNextHighestRcvd_lt, if_pos hle, if_pos (by omega)]
    omega
  · show AmUl.pos _ amUl.rxNextHighestRcvd ≤ _
    rw [hmove _ h.rxNextHighestRcvd_lt, if_pos (by omega)]
    omega
  · have hx' : ¬ amUl.Between amUl.rxNext lo x ∧ amUl.recBufLst x ≠ none := by
      by_cases hb : amUl.Between amUl.rxNext lo x
      · exact absurd (if_pos hb) hx
      · exact ⟨hb, fun hn => hx ((if_neg hb).trans hn)⟩
    obtain ⟨hlt, hpos⟩ := h.recBuf x hx'.2
    have hge : amUl.pos lo ≤ amUl.pos x := by
      by_contra hc
      exact hx'.1 ⟨hlt, by omega, by omega⟩
    refine ⟨hlt, ?_⟩
    show AmUl.pos _ x < AmUl.pos _ amUl.rxNextHighestRcvd
    rw [hmove x hlt, hmove _ h.rxNextHighestRcvd_lt, if_pos hge, if_pos (by omega)]
    omega

/-- The timer stops when `rxNext` comes to the SN it was started for. The distances are those from
the `rxNext` before. -/
theorem stopsTmr_iff {amUl' : AmUl snLen α} (hb : amUl.rxNext < snLen.modulus) (h : amUl'.Ordered)
    (hle : amUl.pos amUl'.rxNext ≤ snLen.winSz) (ht : amUl'.rxNextStatusTrig < snLen.modulus)
    (h0 : 0 < amUl.pos amUl'.rxNextStatusTrig)
    (hin : amUl.pos amUl'.rxNextStatusTrig ≤ snLen.winSz) (recBuf : Option (AmRecBuf α)) :
    amUl'.stopsTmr recBuf = true ↔ amUl.pos amUl'.rxNextStatusTrig ≤ amUl.pos amUl'.rxNext := by
  have hedge := pos_edge h.rxNext_lt h.vrMr
  have hmove := pos_move hb h.rxNext_lt ht
  have hw := snLen.winSz_cases
  have hnext : amUl'.rxNextStatusTrig = amUl'.rxNext ↔
      amUl.pos amUl'.rxNextStatusTrig = amUl.pos amUl'.rxNext :=
    ⟨fun he => by rw [he], fun he => pos_inj hb ht h.rxNext_lt he⟩
  have hv : amUl'.rxNextStatusTrig = amUl'.vrMr ↔
      amUl'.pos amUl'.rxNextStatusTrig = snLen.winSz := by
    rw [← hedge]
    refine ⟨fun he => by rw [he], fun he => pos_inj h.rxNext_lt ht ?_ he⟩
    rw [h.vrMr]
    exact next_lt snLen _
  simp only [stopsTmr, inRecvWindow, hedge, Bool.or_eq_true, Bool.and_eq_true,
    Bool.not_eq_true', decide_eq_true_eq, decide_eq_false_iff_not, hnext, hv, hmove, ne_eq]
  split_ifs <;> omega

/-- What the timer does after a PDU that has moved the window. -/
theorem updateTmr_eq {recBuf : Option (AmRecBuf α)}
    (hrec : amUl.rxNext = amUl.rxNextHighestRcvd → recBuf = none) :
    amUl.updateTmr recBuf =
      if (amUl.reAsmblTmr && !amUl.stopsTmr recBuf) = false ∧ amUl.rxNext < amUl.rxNextHighestRcvd
      then amUl.startTmr
      else { amUl with reAsmblTmr := amUl.reAsmblTmr && !amUl.stopsTmr recBuf } := by
  have hstart : ∀ b, ({ amUl with reAsmblTmr := b } : AmUl snLen α).startsTmr recBuf =
      decide (amUl.rxNext < amUl.rxNextHighestRcvd) := fun b => by
    simp only [startsTmr]
    by_cases he : amUl.rxNextHighestRcvd = amUl.rxNext
    · simp [he, hrec he.symm]
    · simp [he]
  simp only [updateTmr, hstart]
  refine if_congr ?_ rfl rfl
  cases amUl.reAsmblTmr <;> cases amUl.stopsTmr recBuf <;> simp

/-- The window after a PDU that was placed, before the timer is looked at. -/
structure AfterPdu (amUl : AmUl snLen α) (amHdr : AmUlHdr snLen) (pduSz : ℕ) (pdu : α)
    (amUl' : AmUl snLen α) (recBuf : Option (AmRecBuf α)) : Prop where
  ordered : amUl'.Ordered
  delivered : amUl'.Delivered
  next : amUl.FirstFrom (amUl.RcvdWith amHdr pduSz pdu) amUl.rxNext amUl'.rxNext
  status : amUl.FirstFrom (amUl.RcvdWith amHdr pduSz pdu) amUl.rxHighestStatus amUl'.rxHighestStatus
  highest : amUl'.rxNextHighestRcvd = amUl.nextHighest amHdr.sn
  next_le : amUl.pos amUl'.rxNext ≤ amUl.pos amUl'.rxHighestStatus
  status_le : amUl.pos amUl'.rxHighestStatus ≤ amUl.pos amUl'.rxNextHighestRcvd
  highest_le : amUl.pos amUl'.rxNextHighestRcvd ≤ snLen.winSz
  le_highest : amUl.pos amUl.rxNextHighestRcvd ≤ amUl.pos amUl'.rxNextHighestRcvd
  rcvd : ∀ sn < snLen.modulus, amUl.pos amUl'.rxNext ≤ amUl.pos sn →
    (amUl'.Rcvd sn ↔ amUl.RcvdWith amHdr pduSz pdu sn)
  trig : amUl'.rxNextStatusTrig = amUl.rxNextStatusTrig
  reAsmblTmr : amUl'.reAsmblTmr = amUl.reAsmblTmr
  recBuf : amUl'.rxNext = amUl'.rxNextHighestRcvd → recBuf = none

theorem Inv.afterPdu (h : amUl.Inv) {amHdr : AmUlHdr snLen} {pduSz : ℕ} {pdu : α}
    {recBufLst : RecBufLst (AmRecBuf α)}
    (hp : amUl.rlcAmmUlPlacePduInRecBuf amHdr pduSz pdu = (true, recBufLst)) :
    let r := (({ amUl with recBufLst := recBufLst } : AmUl snLen α).updRxNextHighestRcvd
      amHdr.sn).pduPlaced amHdr.sn
    AfterPdu amUl amHdr pduSz pdu r.1.1 r.1.2 := by
  have hsn := SnLen.le_snModMask_iff.1 amHdr.sn_le
  have hin : amUl.pos amHdr.sn < snLen.winSz := by
    have hwin := inRecvWindow_of_placed (congrArg Prod.fst hp)
    rwa [inRecvWindow, decide_eq_true_eq, pos_edge h.rxNext_lt h.vrMr] at hwin
  obtain ⟨-, recBuf, hrec⟩ := (hp ▸ rlcAmmUlPlacePduInRecBuf_placing amHdr pduSz pdu amUl).placed rfl
  simp only at hrec
  subst hrec
  have ho := h.toOrdered.stored hsn hin recBuf
  have hwith : amUl.RcvdWith amHdr pduSz pdu = (amUl.stored amHdr.sn recBuf).Rcvd := by
    funext sn
    rw [RcvdWith, hp, Rcvd, allRcvd, stored]
  obtain ⟨amUl₁, lo, st, hmoved⟩ := pduPlaced_moved ho hsn (Function.update_self ..)
    (fun x recBuf' hx hr => h.delivered x recBuf' (by rwa [← stored_of_ne hx]))
    (fun hne => by
      rw [Rcvd, allRcvd, stored_of_ne hne]
      exact h.rxNext_missing)
    (fun hne => by
      rw [Rcvd, allRcvd, stored_of_ne hne]
      exact h.status_missing)
  rw [updRxNextHighestRcvd_eq]
  have hr : ({ ({ amUl with recBufLst := Function.update amUl.recBufLst amHdr.sn (some recBuf) } :
      AmUl snLen α) with rxNextHighestRcvd := ({ amUl with
        recBufLst := Function.update amUl.recBufLst amHdr.sn (some recBuf) } :
          AmUl snLen α).nextHighest amHdr.sn } : AmUl snLen α) = amUl.stored amHdr.sn recBuf := rfl
  rw [hr]
  simp only
  have hpass := hmoved.passes
  obtain ⟨hf1, hf2, hf3⟩ := hpass.fields
  have hmv := (hpass.ordered ho).moved (by rw [hf1]; exact hpass.firstFrom_iff.2 hmoved.next)
    (by rw [hf2]; exact hpass.firstFrom_iff.2 hmoved.status)
  have hlo := hmoved.next
  have hst := hmoved.status
  rw [← hwith] at hlo hst
  rw [hmoved.eq]
  have hd : ({ amUl₁ with rxHighestStatus := st } : AmUl snLen α).Delivered := hmoved.delivered
  refine ⟨hmv, hd.moved _ _, ⟨hlo.lt, hlo.le, hlo.missing, hlo.received⟩,
    ⟨hst.lt, hst.le, hst.missing, hst.received⟩, hf3, ?_, ?_, ?_, ?_, fun sn _ hle => ?_, ?_, ?_,
    fun he => ?_⟩
  · refine hlo.pos_le hst.lt ?_ hst.missing
    rw [show (amUl.stored amHdr.sn recBuf).rxNext = amUl.rxNext from rfl]
    exact (Nat.le_of_eq (@pos_rxNext _ _ amUl h.rxNext_lt)).trans (Nat.zero_le _)
  · show amUl.pos st ≤ amUl.pos amUl₁.rxNextHighestRcvd
    rw [hf3]
    exact hst.pos_le ho.rxNextHighestRcvd_lt ho.status_le (by rw [hwith]; exact ho.missing)
  · show amUl.pos amUl₁.rxNextHighestRcvd ≤ snLen.winSz
    rw [hf3]
    exact ho.highest_le
  · show amUl.pos amUl.rxNextHighestRcvd ≤ amUl.pos amUl₁.rxNextHighestRcvd
    rw [hf3]
    exact (h.toOrdered.pos_nextHighest hsn hin).2.2.1
  · have hle' : amUl₁.pos lo ≤ amUl₁.pos sn := by
      rw [hpass.pos_eq, hpass.pos_eq]
      exact hle
    refine (@moved_rcvd_iff _ _ ({ amUl₁ with rxHighestStatus := st } : AmUl snLen α)
      _ _ _ hle').trans ?_
    rw [hwith]
    exact hpass.rcvd_iff sn
  · obtain ⟨_, -, _, _, _, _, rfl⟩ := hpass
    rfl
  · obtain ⟨_, -, _, _, _, _, rfl⟩ := hpass
    rfl
  · exact hmoved.recBuf (he.trans hf3)

section

variable {amUl' : AmUl snLen α} {amHdr : AmUlHdr snLen} {pduSz : ℕ} {pdu : α}
  {recBuf : Option (AmRecBuf α)}

/-- The timer runs on if it was started for an SN behind `rxNext`. -/
theorem AfterPdu.runs_iff (h : amUl.Inv) (ha : AfterPdu amUl amHdr pduSz pdu amUl' recBuf) :
    (amUl'.reAsmblTmr && !amUl'.stopsTmr recBuf) = true ↔ amUl.reAsmblTmr = true ∧
      amUl.pos amUl'.rxNext < amUl.pos amUl.rxNextStatusTrig := by
  rw [Bool.and_eq_true, ha.reAsmblTmr, Bool.not_eq_true', ← Bool.not_eq_true]
  refine and_congr_right fun hrun => ?_
  obtain ⟨h1, h2, h3⟩ := h.trig hrun
  have := h.highest_le
  have := ha.next_le
  have := ha.status_le
  have := ha.highest_le
  rw [stopsTmr_iff h.rxNext_lt ha.ordered (by omega) (by rwa [ha.trig]) (by rwa [ha.trig])
    (by rw [ha.trig]; omega), ha.trig, Nat.not_le]

theorem AfterPdu.pos_move (h : amUl.Inv) (ha : AfterPdu amUl amHdr pduSz pdu amUl' recBuf) {x : ℕ}
    (hx : x < snLen.modulus) (hle : amUl.pos amUl'.rxNext ≤ amUl.pos x) :
    amUl'.pos x = amUl.pos x - amUl.pos amUl'.rxNext := by
  rw [AmUl.pos_move h.rxNext_lt ha.ordered.rxNext_lt hx, if_pos hle]

/-- An SN of the window after the PDU, in the distances from before. -/
theorem AfterPdu.gap_iff (h : amUl.Inv) (ha : AfterPdu amUl amHdr pduSz pdu amUl' recBuf) {x : ℕ}
    (hx : x < snLen.modulus) :
    (amUl'.pos amUl'.rxHighestStatus ≤ amUl'.pos x ∧
      amUl'.pos x < amUl'.pos amUl'.rxNextHighestRcvd) ↔
      amUl.pos amUl'.rxHighestStatus ≤ amUl.pos x ∧
        amUl.pos x < amUl.pos amUl'.rxNextHighestRcvd := by
  have h1 := ha.next_le
  have h2 := ha.status_le
  have h3 := ha.highest_le
  have hlt := amUl.pos_lt x
  have hw := snLen.winSz_cases
  rw [ha.pos_move h ha.status.lt h1, ha.pos_move h ha.ordered.rxNextHighestRcvd_lt (by omega),
    AmUl.pos_move h.rxNext_lt ha.ordered.rxNext_lt hx]
  split_ifs <;> omega

/-- A gap that the timer does not watch. -/
theorem AfterPdu.startMissed_iff (h : amUl.Inv) (ha : AfterPdu amUl amHdr pduSz pdu amUl' recBuf)
    (hp : amUl.Places amHdr pduSz pdu) : amUl.StartMissed amHdr pduSz pdu ↔
      (∃ sn < snLen.modulus, amUl'.pos amUl'.rxHighestStatus ≤ amUl'.pos sn ∧
        amUl'.pos sn < amUl'.pos amUl'.rxNextHighestRcvd ∧ ¬ amUl'.Rcvd sn) ∧
      amUl'.rxNextHighestRcvd < amUl'.rxNext ∧
        (amUl'.reAsmblTmr && !amUl'.stopsTmr recBuf) = false := by
  have hnext := ha.next_le
  have hidle : (amUl'.reAsmblTmr && !amUl'.stopsTmr recBuf) = false ↔
      amUl.reAsmblTmr = false ∨ amUl.pos amUl.rxNextStatusTrig ≤ amUl.pos amUl'.rxNext := by
    rw [← Bool.not_eq_true, ha.runs_iff h, not_and_or, Bool.not_eq_true, Nat.not_lt]
  rw [hidle, StartMissed, ← ha.highest]
  constructor
  · rintro ⟨-, ⟨sn, hsn, hle, hlt, hmiss⟩, first, hfirst, hwrap, hi⟩
    obtain rfl := ha.next.unique h.rxNext_lt hfirst
    have hst := ha.status.pos_le hsn hle hmiss
    obtain ⟨h1, h2⟩ := (ha.gap_iff h hsn).2 ⟨hst, hlt⟩
    exact ⟨⟨sn, hsn, h1, h2, by rwa [ha.rcvd sn hsn (by omega)]⟩, hwrap, hi⟩
  · rintro ⟨⟨sn, hsn, hle, hlt, hmiss⟩, hwrap, hi⟩
    obtain ⟨h1, h2⟩ := (ha.gap_iff h hsn).1 ⟨hle, hlt⟩
    have := ha.status.le
    rw [ha.rcvd sn hsn (by omega)] at hmiss
    exact ⟨hp, ⟨sn, hsn, by omega, h2, hmiss⟩, _, ha.next, hwrap, hi⟩

theorem AfterPdu.missing (ha : AfterPdu amUl amHdr pduSz pdu amUl' recBuf) :
    ¬ amUl'.Rcvd amUl'.rxNext ∧ ¬ amUl'.Rcvd amUl'.rxHighestStatus := by
  rw [ha.rcvd _ ha.next.lt (Nat.le_refl _), ha.rcvd _ ha.status.lt ha.next_le]
  exact ⟨ha.next.missing, ha.status.missing⟩

/-- After the timer was looked at, the window is right unless the timer was missed. -/
theorem AfterPdu.updateTmr (h : amUl.Inv) (ha : AfterPdu amUl amHdr pduSz pdu amUl' recBuf)
    (hp : amUl.Places amHdr pduSz pdu) :
    ((amUl'.updateTmr recBuf).WindowOk → ¬ amUl.StartMissed amHdr pduSz pdu) ∧
      (¬ amUl.StartMissed amHdr pduSz pdu → (amUl'.updateTmr recBuf).Inv) := by
  obtain ⟨hmissN, hmissS⟩ := ha.missing
  have hrun := ha.runs_iff h
  rw [ha.startMissed_iff h hp, updateTmr_eq ha.recBuf]
  have ho := ha.ordered
  split
  · -- the timer starts
    rename_i hstart
    obtain ⟨hidle, hlt⟩ := hstart
    refine ⟨fun _ hc => absurd hc.2.1 (by omega), fun _ => ⟨⟨⟨ho.rxNext_lt, ho.rxHighestStatus_lt,
      ho.rxNextHighestRcvd_lt, ho.vrMr, ho.rxNext_le, ho.status_le, ho.highest_le, ho.recBuf⟩,
      hmissN, hmissS, nofun⟩, ha.delivered, fun _ => ⟨ho.rxNextHighestRcvd_lt, ?_, Nat.le_refl _⟩⟩⟩
    refine Nat.pos_of_ne_zero fun hzero => ?_
    have hzero' : amUl'.pos amUl'.rxNextHighestRcvd = amUl'.pos amUl'.rxNext := by
      rw [pos_rxNext ho.rxNext_lt]
      exact hzero
    have := pos_inj ho.rxNext_lt ho.rxNextHighestRcvd_lt ho.rxNext_lt hzero'
    omega
  · rename_i hstart
    rw [not_and] at hstart
    constructor
    · rintro hok ⟨⟨sn, hsn, hle, hlt, hmiss⟩, -, hidle⟩
      exact hmiss (hok.no_gap hidle sn hsn hle hlt)
    · intro hnot
      refine ⟨⟨⟨ho.rxNext_lt, ho.rxHighestStatus_lt, ho.rxNextHighestRcvd_lt, ho.vrMr,
        ho.rxNext_le, ho.status_le, ho.highest_le, ho.recBuf⟩, hmissN, hmissS,
        fun hidle sn hsn hle hlt => ?_⟩, ha.delivered, fun hruns => ?_⟩
      · by_contra hmiss
        have hle' := hstart hidle
        have hne : amUl'.rxNextHighestRcvd ≠ amUl'.rxNext := fun he => by
          have hle2 : amUl'.pos amUl'.rxHighestStatus ≤ amUl'.pos sn := hle
          have hlt2 : amUl'.pos sn < amUl'.pos amUl'.rxNextHighestRcvd := hlt
          rw [he, pos_rxNext ho.rxNext_lt] at hlt2
          omega
        exact hnot ⟨⟨sn, hsn, hle, hlt, hmiss⟩, by omega, hidle⟩
      · obtain ⟨hrun', hlt⟩ := hrun.1 hruns
        obtain ⟨h1, h2, h3⟩ := h.trig hrun'
        have htrig : amUl'.rxNextStatusTrig < snLen.modulus := by rwa [ha.trig]
        have hpos := ha.pos_move h htrig (by rw [ha.trig]; omega)
        have hpos' := ha.pos_move h ho.rxNextHighestRcvd_lt (ha.next_le.trans ha.status_le)
        have hle := ha.le_highest
        rw [ha.trig] at hpos
        refine ⟨htrig, ?_, ?_⟩
        · show 0 < amUl'.pos amUl'.rxNextStatusTrig
          rw [ha.trig]
          omega
        · show amUl'.pos amUl'.rxNextStatusTrig ≤ amUl'.pos amUl'.rxNextHighestRcvd
          rw [ha.trig]
          omega

end

/-! ## The steps -/

theorem Inv.passes {amUl' : AmUl snLen α} (h : amUl.Inv) (hp : Passes amUl amUl')
    (hd : amUl'.Delivered) : amUl'.Inv := by
  have ho := hp.ordered h.toOrdered
  have hr := hp.rcvd_iff
  obtain ⟨_, -, _, _, _, _, rfl⟩ := hp
  refine ⟨⟨ho, ?_, ?_, fun hrun sn hsn h1 h2 => (hr sn).2 (h.no_gap hrun sn hsn h1 h2)⟩, hd, h.trig⟩
  · rw [hr]
    exact h.rxNext_missing
  · rw [hr]
    exact h.status_missing

/-- A PDU that is not placed leaves nothing new. -/
theorem Inv.rejected (h : amUl.Inv) {amHdr : AmUlHdr snLen} {pduSz : ℕ} {pdu : α}
    {recBufLst : RecBufLst (AmRecBuf α)}
    (hp : amUl.rlcAmmUlPlacePduInRecBuf amHdr pduSz pdu = (false, recBufLst)) :
    ({ amUl with recBufLst := recBufLst } : AmUl snLen α).Inv := by
  obtain ⟨hsame, hnew⟩ :=
    (hp ▸ rlcAmmUlPlacePduInRecBuf_placing amHdr pduSz pdu amUl).rejected rfl
  refine h.passes ⟨_, hsame, _, _, _, _, rfl⟩ fun x recBuf hx hall => ?_
  simp only at hx hnew
  by_cases hxs : recBufLst x = amUl.recBufLst x
  · exact h.delivered x recBuf (hxs ▸ hx) hall
  · have := hnew x hxs
    rw [hx, Option.any_some, hall] at this
    cases this

theorem rlcAmmTriggerStatus_eq (sn : ℕ) (discFlg : Bool) (amUl : AmUl snLen α) :
    ∃ staTrg gatherStaPduInfo, amUl.rlcAmmTriggerStatus sn discFlg = { amUl with
      staTrg := staTrg
      gatherStaPduInfo := gatherStaPduInfo } := by
  rw [rlcAmmTriggerStatus]
  split <;> exact ⟨_, _, rfl⟩

theorem WindowOk.of_sta {staTrg gatherStaPduInfo : Bool} (h : ({ amUl with
      staTrg := staTrg
      gatherStaPduInfo := gatherStaPduInfo } : AmUl snLen α).WindowOk) : amUl.WindowOk :=
  ⟨⟨h.rxNext_lt, h.rxHighestStatus_lt, h.rxNextHighestRcvd_lt, h.vrMr, h.rxNext_le, h.status_le,
    h.highest_le, h.recBuf⟩, h.rxNext_missing, h.status_missing, h.no_gap⟩

theorem Inv.processPdu (h : amUl.Inv) (amHdr : AmUlHdr snLen) (pduSz : ℕ) (pdu : α) :
    ((amUl.processPdu amHdr pduSz pdu).1.WindowOk → ¬ amUl.StartMissed amHdr pduSz pdu) ∧
      (¬ amUl.StartMissed amHdr pduSz pdu → (amUl.processPdu amHdr pduSz pdu).1.Inv) := by
  -- the status is triggered last
  have htrigger : ∀ {amUl' : AmUl snLen α} {discFlg : Bool},
      ((if amHdr.p then amUl'.rlcAmmTriggerStatus amHdr.sn discFlg else amUl').WindowOk →
        amUl'.WindowOk) ∧
      (amUl'.Inv → (if amHdr.p then amUl'.rlcAmmTriggerStatus amHdr.sn discFlg else amUl').Inv) := by
    intro amUl' discFlg
    split
    · obtain ⟨a, b, he⟩ := rlcAmmTriggerStatus_eq amHdr.sn discFlg amUl'
      rw [he]
      exact ⟨WindowOk.of_sta, fun hi => hi.sta a b amUl'.staProhTmr⟩
    · exact ⟨id, id⟩
  rw [AmUl.processPdu]
  split
  · rename_i hdrop
    exact ⟨fun _ hc => hc.1.1 hdrop, fun _ => h⟩
  · rename_i hdrop
    rcases hp : amUl.rlcAmmUlPlacePduInRecBuf amHdr pduSz pdu with ⟨_ | _, recBufLst⟩
    · simp only [Bool.false_eq_true, if_false]
      refine ⟨fun _ hc => ?_, fun _ => htrigger.2 (h.rejected hp)⟩
      have := hc.1.2
      rw [hp] at this
      cases this
    · simp only [if_true]
      have hplaces : amUl.Places amHdr pduSz pdu := ⟨hdrop, congrArg Prod.fst hp⟩
      obtain ⟨h1, h2⟩ := (h.afterPdu hp).updateTmr h hplaces
      exact ⟨fun hok => h1 (htrigger.1 hok), fun hn => htrigger.2 (h2 hn)⟩

/-- What the loop of an expiry does: nothing if the record of the SN is complete. -/
theorem reAsmblLoop_eq (recBuf : Option (AmRecBuf α)) (n sn : ℕ) (amUl : AmUl snLen α) :
    amUl.reAsmblLoop recBuf n sn =
      if n = 0 ∨ recBuf.any (·.allRcvd) = true then (amUl, [])
      else ({ amUl with rxHighestStatus := sn }.triggerStatus).gatherStatus := by
  cases hr : recBuf.any (·.allRcvd) with
  | true =>
      rw [if_pos (.inr rfl)]
      induction n generalizing sn with
      | zero => rfl
      | succ n ih =>
          rw [reAsmblLoop, hr]
          exact ih _
  | false =>
      cases n with
      | zero => rfl
      | succ n =>
          rw [reAsmblLoop, hr]
          rfl

/-- After an expiry the timer watches what is missing from `rxHighestStatus` on. -/
theorem inv_restartTmr (ho : amUl.Ordered) (hN : ¬ amUl.Rcvd amUl.rxNext)
    (hS : ¬ amUl.Rcvd amUl.rxHighestStatus) (hd : amUl.Delivered) (hrun : amUl.reAsmblTmr = false)
    (h0 : 0 < amUl.pos amUl.rxNextHighestRcvd) (recBuf : Option (AmRecBuf α)) :
    (amUl.restartTmr recBuf).Inv := by
  rw [restartTmr]
  split
  · exact ⟨⟨⟨ho.rxNext_lt, ho.rxHighestStatus_lt, ho.rxNextHighestRcvd_lt, ho.vrMr, ho.rxNext_le,
      ho.status_le, ho.highest_le, ho.recBuf⟩, hN, hS, nofun⟩, hd,
      fun _ => ⟨ho.rxNextHighestRcvd_lt, h0, Nat.le_refl _⟩⟩
  · rename_i hstop
    rw [not_or, Nat.not_lt] at hstop
    refine ⟨⟨ho, hN, hS, fun _ sn _ h1 h2 => ?_⟩, hd, fun hc => ?_⟩
    · have := hstop.1
      omega
    · rw [hrun] at hc
      cases hc

theorem restartTmr_fields (recBuf : Option (AmRecBuf α)) (amUl : AmUl snLen α) :
    (amUl.restartTmr recBuf).rxHighestStatus = amUl.rxHighestStatus ∧
      (amUl.restartTmr recBuf).staTrg = amUl.staTrg := by
  rw [restartTmr]
  split <;> exact ⟨rfl, rfl⟩

/-- A STATUS is triggered, and sent unless it is prohibited. -/
theorem gatherStatus_triggerStatus (amUl : AmUl snLen α) :
    ∃ staTrg out, amUl.triggerStatus.gatherStatus = ({ amUl with
      staTrg := staTrg
      gatherStaPduInfo := false }, out) ∧ (staTrg = true ∨ .staPdu ∈ out) := by
  rw [triggerStatus, gatherStatus]
  cases hproh : amUl.staProhTmr with
  | true => exact ⟨true, [], rfl, .inl rfl⟩
  | false => exact ⟨false, [.staPdu], rfl, .inr (List.mem_singleton_self _)⟩

theorem Inv.reAsmblTmrExp (h : amUl.Inv) (hrun : amUl.reAsmblTmr = true) :
    ({ amUl with reAsmblTmr := false } : AmUl snLen α).rlcAmmReAsmblTmrExp.1.Inv ∧
      (amUl.ExpiryRight ({ amUl with reAsmblTmr := false } : AmUl snLen α).rlcAmmReAsmblTmrExp.1
        ({ amUl with reAsmblTmr := false } : AmUl snLen α).rlcAmmReAsmblTmrExp.2 ↔
          amUl.ExpiryOk) := by
  obtain ⟨ht, h0, hle⟩ := h.trig hrun
  have hhigh := h.highest_le
  have hedge := pos_edge h.rxNext_lt h.vrMr
  have hvrMr : amUl.vrMr < snLen.modulus := by
    rw [h.vrMr]
    exact next_lt snLen _
  have hzero : amUl.pos amUl.vrMr - amUl.pos amUl.rxNextStatusTrig = 0 ↔
      amUl.rxNextStatusTrig = amUl.vrMr := by
    refine ⟨fun he => pos_inj h.rxNext_lt ht hvrMr (by omega), fun he => ?_⟩
    rw [he, Nat.sub_self]
  rw [rlcAmmReAsmblTmrExp, reAsmblLoop_eq]
  have ho : ({ amUl with reAsmblTmr := false } : AmUl snLen α).Ordered :=
    ⟨h.rxNext_lt, h.rxHighestStatus_lt, h.rxNextHighestRcvd_lt, h.vrMr, h.rxNext_le, h.status_le,
      h.highest_le, h.recBuf⟩
  split
  · -- nothing is found
    rename_i hstop
    have hnot : ¬ (amUl.rxNextStatusTrig ≠ amUl.vrMr ∧ ¬ amUl.Rcvd amUl.rxNextStatusTrig) := by
      rintro ⟨h1, h2⟩
      rcases hstop with hz | hr
      · exact h1 (hzero.1 hz)
      · exact h2 hr
    obtain ⟨hf1, hf2⟩ := restartTmr_fields (amUl.recBufLst amUl.rxNextStatusTrig)
      ({ amUl with reAsmblTmr := false } : AmUl snLen α)
    refine ⟨inv_restartTmr ho h.rxNext_missing h.status_missing h.delivered rfl
      (Nat.lt_of_lt_of_le h0 hle) _, ?_⟩
    rw [ExpiryOk, or_iff_right hnot]
    constructor
    · rintro ⟨hfirst, hsta⟩
      rw [hf1] at hfirst
      rw [hf2] at hsta
      exact ⟨hfirst, hsta.resolve_right nofun⟩
    · rintro ⟨hfirst, hsta⟩
      exact ⟨by rw [hf1]; exact hfirst, .inl (by rw [hf2]; exact hsta)⟩
  · rename_i hgo
    rw [not_or] at hgo
    have hmiss : ¬ amUl.Rcvd amUl.rxNextStatusTrig := hgo.2
    obtain ⟨staTrg, out, he, hout⟩ := gatherStatus_triggerStatus ({ amUl with
      reAsmblTmr := false
      rxHighestStatus := amUl.rxNextStatusTrig } : AmUl snLen α)
    rw [he]
    simp only
    obtain ⟨hf1, hf2⟩ := restartTmr_fields (amUl.recBufLst amUl.rxNextStatusTrig) ({ amUl with
      reAsmblTmr := false
      rxHighestStatus := amUl.rxNextStatusTrig
      staTrg := staTrg
      gatherStaPduInfo := false } : AmUl snLen α)
    have ho' : ({ amUl with
        reAsmblTmr := false
        rxHighestStatus := amUl.rxNextStatusTrig
        staTrg := staTrg
        gatherStaPduInfo := false } : AmUl snLen α).Ordered := by
      refine ⟨h.rxNext_lt, ht, h.rxNextHighestRcvd_lt, h.vrMr, ?_, hle, hhigh, h.recBuf⟩
      exact (Nat.le_of_eq (@pos_rxNext _ _ amUl h.rxNext_lt)).trans (Nat.zero_le _)
    refine ⟨inv_restartTmr ho' h.rxNext_missing hmiss h.delivered rfl (Nat.lt_of_lt_of_le h0 hle) _,
      iff_of_true ⟨?_, ?_⟩ (.inl ⟨fun hv => hgo.1 (hzero.2 hv), hmiss⟩)⟩
    · rw [hf1]
      exact firstFrom_self ht hmiss
    · rw [hf2]
      exact hout

end AmUl

namespace AmUlOp

open AmUl

/-- The condition on a step. -/
def StepOk (amUl : AmUl snLen α) : AmUlOp snLen α → Prop
  | .pdu amHdr pduSz mBuf => ¬ amUl.StartMissed amHdr pduSz mBuf
  | .reAsmblTmrExp => amUl.reAsmblTmr = true → amUl.ExpiryOk
  | .pdusEnd | .staProhTmrStart | .staProhTmrExp => True

/-- What a step is to keep. -/
def StepRight (amUl amUl' : AmUl snLen α) (out : List (AmUlOut α)) (op : AmUlOp snLen α) : Prop :=
  amUl'.WindowOk ∧
    (op = .reAsmblTmrExp → amUl.reAsmblTmr = true → amUl.ExpiryRight amUl' out)

theorem step_spec {amUl : AmUl snLen α} (h : amUl.Inv) (op : AmUlOp snLen α) :
    ∃ amUl' out, step amUl op = .ok (amUl', out) ∧ (StepRight amUl amUl' out op ↔ StepOk amUl op) ∧
      (StepOk amUl op → amUl'.Inv) := by
  cases op with
  | pdu amHdr pduSz mBuf =>
      obtain ⟨h1, h2⟩ := h.processPdu amHdr pduSz mBuf
      exact ⟨_, _, rfl, ⟨fun hr => h1 hr.1, fun hn => ⟨(h2 hn).toWindowOk, nofun⟩⟩, h2⟩
  | reAsmblTmrExp =>
      cases hrun : amUl.reAsmblTmr with
      | false =>
          refine ⟨amUl, [], ?_, ?_, fun _ => h⟩
          · rw [step, hrun, if_neg Bool.false_ne_true]
          · exact iff_of_true ⟨h.toWindowOk, fun _ hc => by rw [hrun] at hc; cases hc⟩
              fun hc => by rw [hrun] at hc; cases hc
      | true =>
          have hexp := h.reAsmblTmrExp hrun
          rcases hr : ({ amUl with reAsmblTmr := false } : AmUl snLen α).rlcAmmReAsmblTmrExp with
            ⟨amUl', out⟩
          rw [hr] at hexp
          refine ⟨amUl', out, ?_, ⟨fun hok _ => hexp.2.1 (hok.2 rfl hrun),
            fun hok => ⟨hexp.1.toWindowOk, fun _ _ => hexp.2.2 (hok hrun)⟩⟩, fun _ => hexp.1⟩
          rw [step, hrun, if_pos rfl, hr]
  | pdusEnd =>
      have hinv : amUl.gatherStatus.1.Inv := by
        rw [gatherStatus]
        split
        · exact h.sta false false amUl.staProhTmr
        · exact h
      exact ⟨_, _, rfl, iff_of_true ⟨hinv.toWindowOk, nofun⟩ trivial, fun _ => hinv⟩
  | staProhTmrStart =>
      have hinv := h.sta amUl.staTrg amUl.gatherStaPduInfo true
      exact ⟨_, _, rfl, iff_of_true ⟨hinv.toWindowOk, nofun⟩ trivial, fun _ => hinv⟩
  | staProhTmrExp =>
      have hinv : (if amUl.staProhTmr then
          ({ amUl with staProhTmr := false } : AmUl snLen α).rlcAmmStaProTmrExp
          else (amUl, [])).1.Inv := by
        split
        · rw [rlcAmmStaProTmrExp]
          split
          · exact h.sta false false false
          · exact h.sta amUl.staTrg false false
        · exact h
      exact ⟨_, _, rfl, iff_of_true ⟨hinv.toWindowOk, nofun⟩ trivial, fun _ => hinv⟩

/-- The window is right in every state of the run, and every expiry of the timer does what it
should. -/
def WindowKept (snLen : SnLen) (ops : List (AmUlOp snLen α)) : Prop :=
  ∀ pre, pre <+: ops → ∃ amUl outs, Machine.run step {} pre = .ok (amUl, outs) ∧ amUl.WindowOk ∧
    ∀ pre' amUl' outs' out, pre = pre' ++ [.reAsmblTmrExp] →
      Machine.run step {} pre' = .ok (amUl', outs') → step amUl' .reAsmblTmrExp = .ok (amUl, out) →
      amUl'.reAsmblTmr = true → amUl'.ExpiryRight amUl out

/-- A PDU with a whole SDU. -/
def completePdu (sn : ℕ) (h : sn ≤ SnLen.bits12.snModMask) : AmUlOp .bits12 Unit :=
  .pdu ⟨false, none, sn, 0, h, fun _ => rfl⟩ 10 ()

/-- The state after a run. -/
def runState (ops : List (AmUlOp .bits12 Unit)) : AmUl .bits12 Unit :=
  match Machine.run step {} ops with
  | .ok (amUl, _) => amUl
  | .error _ => {}

/-- SN 0 and 1 are lost. The timer starts for SN 3, which comes before it expires. -/
def lateOps : List (AmUlOp .bits12 Unit) :=
  [completePdu 2 (by decide), completePdu 3 (by decide)]

end AmUlOp

end OaiCu.OduRlc
