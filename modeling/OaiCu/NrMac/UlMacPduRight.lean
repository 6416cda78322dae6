import OaiCu.Lib.Chunks
import OaiCu.NrMac.UlMacPdu

/-!
# Which MAC PDUs of the uplink are gone through right

The PDU is gone through safely if every subPDU that the loop comes to has all it needs in the PDU. It is
gone through as it is formed unless there is an SDU on SRB 3, whose length the loop does not read, or a
CCCH1 message of nothing but 0, at which the loop ends.
-/

namespace OaiCu.NrMac

open Chunks

/-- Where the loop goes on. -/
def chunkSize (t : List UInt8) : Option ℕ := (chunk t).map fun len => len.1 + len.2

/-- How the length of a payload on the UL-SCH is known. -/
def UlSchLcid.payloadLen : UlSchLcid → Option PayloadLen
  | ccch1 => some (.fixed 8)
  | ccch => some (.fixed 6)
  | srb1 | srb2 | srb3 | dtch => some .inLField
  | multiEntryPhr4Oct | multiEntryPhr1Oct | lTruncatedBsr | lBsr => some .inLField
  | recommendedBitrateQuery | singleEntryPhr | cRnti => some (.fixed 2)
  | sTruncatedBsr | sBsr => some (.fixed 1)
  | configuredGrantConfirmation => some (.fixed 0)
  | padding => none

def ulPayloadLen (code : ℕ) : Option PayloadLen :=
  (UlSchLcid.ofCode code).bind UlSchLcid.payloadLen

namespace UlMacEnv

variable {env : UlMacEnv} {ueId : ℕ} {st : UlMacState} {t : List UInt8} {lcid : UlSchLcid}

theorem nrProcessMacPdu_of_wrong (hl : lcidAt t = some lcid)
    (h : StepWrong t (subPdu env ueId st t lcid)) :
    ∃ e, nrProcessMacPdu env ueId st t = .error e := by
  cases t with
  | nil => cases hl
  | cons b bs =>
      have hb : UlSchLcid.ofCode (lcidOf b) = some lcid := hl
      rw [nrProcessMacPdu, hb]
      rcases h with ⟨e, hx⟩ | ⟨turn, st', sdus, hx, hfit⟩
      · exact ⟨e, by simp only [hx]⟩
      · cases turn with
        | ret => exact absurd trivial hfit
        | done len => exact ⟨.outside, by simp only [hx, if_pos (Nat.lt_of_not_le hfit)]⟩
        | next hdr macLen => exact ⟨.outside, by simp only [hx, if_pos (Nat.lt_of_not_le hfit)]⟩

theorem nrProcessMacPdu_of_stop {turn : Turn} {st' : UlMacState} {sdus : List UlSdu}
    (hl : lcidAt t = some lcid) (hx : subPdu env ueId st t lcid = .ok (turn, st', sdus))
    (hfit : turn.Fits t) (hstop : turn.chunk = none) :
    nrProcessMacPdu env ueId st t = .ok { ret := 0, state := st', visits := [], sdus := sdus } := by
  cases t with
  | nil => cases hl
  | cons b bs =>
      have hb : UlSchLcid.ofCode (lcidOf b) = some lcid := hl
      rw [nrProcessMacPdu, hb]
      cases turn with
      | ret => simp only [hx]
      | done len => simp only [hx, if_neg (Nat.not_lt.mpr hfit)]
      | next hdr macLen => cases hstop

theorem nrProcessMacPdu_of_next {hdr macLen : ℕ} {st' : UlMacState} {sdus : List UlSdu}
    (hl : lcidAt t = some lcid)
    (hx : subPdu env ueId st t lcid = .ok (.next hdr macLen, st', sdus)) (hpos : 1 ≤ hdr)
    (hfit : hdr + macLen ≤ t.length) :
    nrProcessMacPdu env ueId st t =
      (nrProcessMacPdu env ueId st' (t.drop (hdr + macLen))).map fun r =>
        { r with
          visits :=
            { lcid := lcid
              macSubheaderLen := hdr
              payload := (t.drop hdr).take macLen } :: r.visits
          sdus := sdus ++ r.sdus } := by
  cases t with
  | nil => cases hl
  | cons b bs =>
      have hb : UlSchLcid.ofCode (lcidOf b) = some lcid := hl
      rw [nrProcessMacPdu, hb, drop_cons_of_pos (Nat.le_add_right_of_le hpos)]
      simp only [hx, if_neg (Nat.not_lt.mpr hfit)]
      cases nrProcessMacPdu env ueId st' (bs.drop (hdr + macLen - 1)) with
      | error e => rfl
      | ok r => rfl

theorem chunk_pos {hdr macLen : ℕ} (h : chunk t = some (hdr, macLen)) : 1 ≤ hdr := by
  have hmac : (getMacLen t).map Prod.swap = some (hdr, macLen) → 1 ≤ hdr := by
    intro hmap
    obtain ⟨len, hlen, hswap⟩ := Option.map_eq_some_iff.mp hmap
    cases hswap
    exact Nat.le_of_succ_le (getMacLen_pos hlen)
  rw [chunk] at h
  cases hl : lcidAt t with
  | none => rw [hl] at h; cases h
  | some lcid =>
      rw [hl] at h
      cases lcid
      case ccch1 =>
        dsimp only at h
        split at h <;> cases h
        exact Nat.le_refl 1
      case srb1 | srb2 | dtch | multiEntryPhr4Oct | multiEntryPhr1Oct | lTruncatedBsr | lBsr =>
        exact hmac h
      case padding => cases h
      all_goals
        cases h
        exact Nat.le_refl 1

/-! ## The three ways of the loop -/

theorem of_not_inside (st : UlMacState) (h : ¬ env.Inside ueId t) :
    ∃ e, nrProcessMacPdu env ueId st t = .error e := by
  cases hl : lcidAt t with
  | none => exact absurd (by simp only [Inside, hl]) h
  | some lcid =>
      rcases subPdu_spec env ueId st hl with ⟨hin, -⟩ | ⟨-, hwrong⟩
      · exact absurd hin h
      · exact nrProcessMacPdu_of_wrong hl hwrong

theorem of_chunk_none (st : UlMacState) (hin : env.Inside ueId t) (hc : chunk t = none) :
    ∃ r, nrProcessMacPdu env ueId st t = .ok r ∧ r.visits = [] := by
  cases hl : lcidAt t with
  | none =>
      cases t with
      | nil => exact ⟨_, by rw [nrProcessMacPdu], rfl⟩
      | cons b bs =>
          have hb : UlSchLcid.ofCode (lcidOf b) = none := hl
          rw [nrProcessMacPdu, hb]
          exact ⟨_, rfl, rfl⟩
  | some lcid =>
      rcases subPdu_spec env ueId st hl with
        ⟨-, turn, st', sdus, hx, hfit, hturn⟩ | ⟨hout, -⟩
      · exact ⟨_, nrProcessMacPdu_of_stop hl hx hfit (hturn.trans hc), rfl⟩
      · exact absurd hin hout

theorem of_chunk {hdr macLen : ℕ} (st : UlMacState) (hin : env.Inside ueId t)
    (hc : chunk t = some (hdr, macLen)) :
    hdr + macLen ≤ t.length ∧ ∃ lcid st' sdus, lcidAt t = some lcid ∧
      nrProcessMacPdu env ueId st t =
        (nrProcessMacPdu env ueId st' (t.drop (hdr + macLen))).map fun r =>
          { r with
            visits :=
              { lcid := lcid
                macSubheaderLen := hdr
                payload := (t.drop hdr).take macLen } :: r.visits
            sdus := sdus ++ r.sdus } := by
  cases hl : lcidAt t with
  | none =>
      rw [chunk, hl] at hc
      cases hc
  | some lcid =>
      rcases subPdu_spec env ueId st hl with
        ⟨-, turn, st', sdus, hx, hfit, hturn⟩ | ⟨hout, -⟩
      · rw [hc] at hturn
        cases turn with
        | ret => cases hturn
        | done len => cases hturn
        | next hdr' macLen' =>
            cases hturn
            exact ⟨hfit, lcid, st', sdus, rfl, nrProcessMacPdu_of_next hl hx (chunk_pos hc) hfit⟩
      · exact absurd hin hout

theorem visits_of_chunk {hdr macLen : ℕ} {r : Processed} (hc : chunk t = some (hdr, macLen))
    (hl : lcidAt t = some lcid) (hr : nrProcessMacPdu env ueId st t = .ok r) :
    ∃ st' r', nrProcessMacPdu env ueId st' (t.drop (hdr + macLen)) = .ok r' ∧
      r.visits =
        { lcid := lcid, macSubheaderLen := hdr, payload := (t.drop hdr).take macLen } ::
          r'.visits := by
  have hin : env.Inside ueId t := by
    by_contra hout
    obtain ⟨e, he⟩ := of_not_inside st hout
    cases hr.symm.trans he
  obtain ⟨-, lcid', st', sdus, hl', hstep⟩ := of_chunk st hin hc
  cases hl.symm.trans hl'
  rw [hstep] at hr
  cases hrest : nrProcessMacPdu env ueId st' (t.drop (hdr + macLen)) with
  | error e => rw [hrest] at hr; cases hr
  | ok r' =>
      rw [hrest] at hr
      cases hr
      exact ⟨st', r', hrest, rfl⟩

theorem visits_of_chunk_none {r : Processed} (hc : chunk t = none)
    (hr : nrProcessMacPdu env ueId st t = .ok r) : r.visits = [] := by
  by_cases hin : env.Inside ueId t
  · obtain ⟨r', hr', hvisits⟩ := of_chunk_none st hin hc
    cases hr.symm.trans hr'
    exact hvisits
  · obtain ⟨e, he⟩ := of_not_inside st hin
    cases hr.symm.trans he

/-! ## The whole PDU -/

/-- The call stays in the PDU exactly if every subPDU it comes to has all it needs there. -/
theorem nrProcessMacPdu_iff (t : List UInt8) : ∀ st : UlMacState,
    (∃ r, nrProcessMacPdu env ueId st t = .ok r) ↔
      ∀ u, Start chunkSize t u → env.Inside ueId u := by
  induction hlen : t.length using Nat.strongRecOn generalizing t with
  | ind len ih =>
  subst hlen
  intro st
  rw [forall_start_iff]
  by_cases hin : env.Inside ueId t
  · cases hc : chunk t with
    | none =>
        obtain ⟨r, hr, -⟩ := of_chunk_none st hin hc
        refine iff_of_true ⟨r, hr⟩ ⟨hin, fun n hn => ?_⟩
        rw [chunkSize, hc] at hn
        cases hn
    | some len =>
        obtain ⟨hdr, macLen⟩ := len
        obtain ⟨hle, lcid, st', sdus, -, hr⟩ := of_chunk st hin hc
        have hsize : chunkSize t = some (hdr + macLen) := by rw [chunkSize, hc, Option.map_some]
        have hshort : (t.drop (hdr + macLen)).length < t.length := by
          have := chunk_pos hc
          rw [List.length_drop]
          omega
        have hrest := ih _ hshort (t.drop (hdr + macLen)) rfl st'
        rw [hr, hsize]
        constructor
        · rintro ⟨r, hmap⟩
          refine ⟨hin, fun n hn => ?_⟩
          cases hn
          refine hrest.mp ?_
          cases hr' : nrProcessMacPdu env ueId st' (t.drop (hdr + macLen)) with
          | error e => rw [hr'] at hmap; cases hmap
          | ok r' => exact ⟨r', rfl⟩
        · rintro ⟨-, hall⟩
          obtain ⟨r', hr'⟩ := hrest.mpr (hall _ rfl)
          rw [hr']
          exact ⟨_, rfl⟩
  · obtain ⟨e, he⟩ := of_not_inside st hin
    rw [he]
    exact iff_of_false (fun ⟨_, hr⟩ => (nomatch hr)) fun h => hin h.1

end UlMacEnv

/-! ## What the PDU was put together from -/

/-- What is gone through of a subPDU. -/
def SubPdu.ulVisit (s : SubPdu) : Option UlMacEnv.Visit :=
  match UlSchLcid.ofCode s.lcid with
  | none => none
  | some lcid =>
      match lcid.payloadLen with
      | none => none
      | some len =>
          some { lcid := lcid, macSubheaderLen := (s.header len).length, payload := s.payload }

/-- Neither an SDU on SRB 3 nor a CCCH1 message of nothing but 0. -/
def SubPdu.UlTaken (s : SubPdu) : Prop :=
  s.lcid ≠ UlSchLcid.srb3.code ∧ ¬ (s.octet = 0 ∧ s.payload = List.replicate 8 0)

namespace UlMacEnv

variable {env : UlMacEnv} {ueId : ℕ} {st : UlMacState} {t : List UInt8} {lcid : UlSchLcid}

theorem chunk_eq_subheaderAt (hl : lcidAt t = some lcid) (hsrb3 : lcid ≠ .srb3)
    (hzero : lcid = .ccch1 → t.take 9 ≠ List.replicate 9 0) :
    chunk t = subheaderAt ulPayloadLen t := by
  cases t with
  | nil => cases hl
  | cons b bs =>
      have hb : UlSchLcid.ofCode (lcidOf b) = some lcid := hl
      have hlen : ulPayloadLen (lcidOf b) = lcid.payloadLen := by
        rw [ulPayloadLen, hb, Option.bind_some]
      rw [chunk, hl, subheaderAt, hlen]
      cases lcid
      case srb3 => exact absurd rfl hsrb3
      case ccch1 => exact if_neg (hzero rfl)
      all_goals rfl

/-- The LCID of a well-formed subPDU is one of the UL-SCH. -/
theorem exists_lcid {s : SubPdu} {len : PayloadLen} (hlen : ulPayloadLen s.lcid = some len) :
    ∃ lcid, UlSchLcid.ofCode s.lcid = some lcid ∧ lcid.payloadLen = some len :=
  Option.bind_eq_some_iff.mp hlen

theorem lcidAt_encode {s : SubPdu} (len : PayloadLen) (rest : List UInt8) :
    lcidAt (s.encode len ++ rest) = UlSchLcid.ofCode s.lcid := by
  obtain ⟨l, hl⟩ := s.header_eq_cons len
  rw [SubPdu.encode, hl]
  rfl

theorem ofCode_eq_some {n : ℕ} (h : UlSchLcid.ofCode n = some lcid) : n = lcid.code := by
  revert h
  fun_cases UlSchLcid.ofCode n <;> intro h <;> cases h <;> rfl

/-- The nine octets of a CCCH1 message. -/
theorem take_encode_ccch1 {s : SubPdu} (hfit : s.Fits (.fixed 8)) (rest : List UInt8) :
    (s.encode (.fixed 8) ++ rest).take 9 = List.replicate 9 0 ↔
      s.octet = 0 ∧ s.payload = List.replicate 8 0 := by
  have hlen : s.payload.length = 8 := hfit
  have htake : (s.encode (.fixed 8) ++ rest).take 9 = s.octet :: s.payload := by
    have : (s.encode (.fixed 8)).length = 9 := by
      rw [s.encode_length, hlen]
      rfl
    rw [← this, List.take_left]
    rfl
  rw [htake, List.replicate_succ, List.cons_eq_cons]

/-- The PDU is gone through as it is formed exactly if the loop takes every subPDU. -/
theorem visits_iff {subs : List SubPdu} (h : WellFormed ulPayloadLen t subs) :
    ∀ (st : UlMacState) (r : Processed), nrProcessMacPdu env ueId st t = .ok r →
      (r.visits.map some = subs.map SubPdu.ulVisit ↔ ∀ s ∈ subs, s.UlTaken) := by
  induction h with
  | empty =>
      intro st r hr
      rw [visits_of_chunk_none rfl hr]
      exact iff_of_true rfl fun s hs => absurd hs List.not_mem_nil
  | @padding b bs hb =>
      intro st r hr
      have hl : lcidAt (b :: bs) = some .padding := by
        rw [lcidAt, List.head?_cons, Option.bind_some, hb]
        rfl
      have hc : chunk (b :: bs) = none := by simp only [chunk, hl]
      rw [visits_of_chunk_none hc hr]
      exact iff_of_true rfl fun s hs => absurd hs List.not_mem_nil
  | @subPdu s len rest subs hlen hfit hrest ih =>
      intro st r hr
      obtain ⟨lcid, hof, hpay⟩ := exists_lcid hlen
      have hl : lcidAt (s.encode len ++ rest) = some lcid := (lcidAt_encode len rest).trans hof
      have hcode : s.lcid = lcid.code := ofCode_eq_some hof
      have hseen : s.ulVisit = some
          { lcid := lcid, macSubheaderLen := (s.header len).length, payload := s.payload } := by
        simp only [SubPdu.ulVisit, hof, hpay]
      rw [List.map_cons, hseen, List.forall_mem_cons]
      by_cases hsrb3 : lcid = .srb3
      · -- only the first octet of the subheader is taken
        have hc : chunk (s.encode len ++ rest) = some (1, 0) := by
          simp only [chunk, hl, hsrb3]
        have hlong : 2 ≤ (s.header len).length := by
          rw [hsrb3] at hpay
          cases hpay
          exact s.two_le_header_length
        obtain ⟨st', r', -, hvisits⟩ := visits_of_chunk hc hl hr
        refine iff_of_false (fun heq => ?_) fun hall => hall.1.1 (by rw [hcode, hsrb3])
        rw [hvisits, List.map_cons, List.cons_eq_cons, Option.some.injEq,
          Visit.mk.injEq] at heq
        rw [← heq.1.2.1] at hlong
        exact absurd hlong (by decide)
      by_cases hzero : lcid = .ccch1 ∧ (s.encode len ++ rest).take 9 = List.replicate 9 0
      · -- the loop ends here
        have hc : chunk (s.encode len ++ rest) = none := by
          simp only [chunk, hl, hzero.1, hzero.2, if_true]
        rw [visits_of_chunk_none hc hr]
        refine iff_of_false (fun heq => by cases heq) fun hall => hall.1.2 ?_
        rw [hzero.1] at hpay
        cases hpay
        exact (take_encode_ccch1 hfit rest).mp hzero.2
      · have hc : chunk (s.encode len ++ rest) =
            some ((s.header len).length, s.payload.length) := by
          rw [chunk_eq_subheaderAt hl hsrb3 fun he hz => hzero ⟨he, hz⟩,
            subheaderAt_encode hlen hfit]
        obtain ⟨st', r', hr', hvisits⟩ := visits_of_chunk hc hl hr
        rw [s.drop_encode len rest] at hr'
        rw [hvisits, s.payload_encode len rest, List.map_cons, List.cons_eq_cons,
          ← ih st' r' hr']
        have htaken : s.UlTaken := by
          refine ⟨fun he => hsrb3 ?_, fun hz => hzero ?_⟩
          · rw [he, UlSchLcid.ofCode_code] at hof
            cases hof
            rfl
          · have hcc : lcid = .ccch1 := by
              rw [SubPdu.lcid, hz.1] at hof
              cases hof
              rfl
            rw [hcc] at hpay
            cases hpay
            exact ⟨hcc, (take_encode_ccch1 hfit rest).mpr hz⟩
        exact and_congr (iff_of_true rfl htaken) Iff.rfl

/-- The call ends without a read behind the PDU, an SDU that is not wholly in it, an index that is no UE
or an assertion, and goes through the subPDUs that a well-formed PDU was put together from. -/
def PduRight (env : UlMacEnv) (ueId : ℕ) (st : UlMacState) (pdu : List UInt8) : Prop :=
  ∃ r, nrProcessMacPdu env ueId st pdu = .ok r ∧
    ∀ subs, WellFormed ulPayloadLen pdu subs → r.visits.map some = subs.map SubPdu.ulVisit

/-- An SDU of 5 octets is handed to the RLC, and the PDU ends behind its subheader. -/
theorem pduRight_wrong :
    ¬ PduRight
      { maxMobiles := 1
        active := fun _ => true
        rnti := fun _ => 0x1234
        cellGroup := fun _ => true
        ra := []
        shortBsrTable := fun _ => 0
        longBsrTable := fun _ => 0 }
      0
      { estimatedUlBuffer := 0
        ph := 0
        pcmax := 0
        lcBytes := 0
        raCrnti := fun _ => 0
        raMsg3DcchDtch := fun _ => false }
      [0x04, 0x05] := by
  rintro ⟨r, hr, -⟩
  obtain ⟨e, he⟩ := of_not_inside (t := [0x04, 0x05]) _ fun hin => absurd (hin 5 2 rfl) (by decide)
  cases hr.symm.trans he

/-- A PDU is gone through right exactly if every subPDU that the loop comes to has all it needs in the
PDU, and the PDU was put together from nothing but subPDUs that the loop takes. -/
theorem pduRight_iff (env : UlMacEnv) (ueId : ℕ) (st : UlMacState) (pdu : List UInt8) :
    env.PduRight ueId st pdu ↔
      (∀ t, Start chunkSize pdu t → env.Inside ueId t) ∧
        ∀ subs, WellFormed ulPayloadLen pdu subs → ∀ s ∈ subs, s.UlTaken := by
  rw [← nrProcessMacPdu_iff pdu st]
  constructor
  · rintro ⟨r, hr, hvisits⟩
    exact ⟨⟨r, hr⟩, fun subs hsubs => (visits_iff hsubs st r hr).mp (hvisits subs hsubs)⟩
  · rintro ⟨⟨r, hr⟩, htaken⟩
    exact ⟨r, hr, fun subs hsubs => (visits_iff hsubs st r hr).mpr (htaken subs hsubs)⟩

end UlMacEnv

end OaiCu.NrMac
