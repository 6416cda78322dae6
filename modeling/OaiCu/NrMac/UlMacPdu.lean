import OaiCu.NrMac.MacPdu

/-!
# The MAC PDU of the uplink

`nr_process_mac_pdu` goes through the subPDUs of a PDU. A read behind the PDU, an SDU that is not
wholly in it, an index that is no UE, and an assertion end the run with an error. What the RLC and the
RRC do with an SDU is not part of it.
-/

namespace OaiCu.NrMac

/-- The logical channel ids of the UL-SCH. -/
inductive UlSchLcid
  | ccch1
  | srb1
  | srb2
  | srb3
  | dtch
  | ccch
  | recommendedBitrateQuery
  | multiEntryPhr4Oct
  | configuredGrantConfirmation
  | multiEntryPhr1Oct
  | singleEntryPhr
  | cRnti
  | sTruncatedBsr
  | lTruncatedBsr
  | sBsr
  | lBsr
  | padding
  deriving DecidableEq, Repr

namespace UlSchLcid

def code : UlSchLcid → ℕ
  | ccch1 => 0x00
  | srb1 => 0x01
  | srb2 => 0x02
  | srb3 => 0x03
  | dtch => 0x04
  | ccch => 0x34
  | recommendedBitrateQuery => 0x35
  | multiEntryPhr4Oct => 0x36
  | configuredGrantConfirmation => 0x37
  | multiEntryPhr1Oct => 0x38
  | singleEntryPhr => 0x39
  | cRnti => 0x3A
  | sTruncatedBsr => 0x3B
  | lTruncatedBsr => 0x3C
  | sBsr => 0x3D
  | lBsr => 0x3E
  | padding => 0x3F

def ofCode : ℕ → Option UlSchLcid
  | 0x00 => some ccch1
  | 0x01 => some srb1
  | 0x02 => some srb2
  | 0x03 => some srb3
  | 0x04 => some dtch
  | 0x34 => some ccch
  | 0x35 => some recommendedBitrateQuery
  | 0x36 => some multiEntryPhr4Oct
  | 0x37 => some configuredGrantConfirmation
  | 0x38 => some multiEntryPhr1Oct
  | 0x39 => some singleEntryPhr
  | 0x3A => some cRnti
  | 0x3B => some sTruncatedBsr
  | 0x3C => some lTruncatedBsr
  | 0x3D => some sBsr
  | 0x3E => some lBsr
  | 0x3F => some padding
  | _ => none

theorem ofCode_code (lcid : UlSchLcid) : ofCode lcid.code = some lcid := by
  cases lcid <;> rfl

end UlSchLcid

/-- The states of a random access procedure. -/
inductive RaState
  | idle
  | msg2
  | waitMsg3
  | msg3Retransmission
  | msg4
  | waitMsg4Ack
  deriving DecidableEq, Repr

/-- ra->state >= WAIT_Msg3. -/
def RaState.afterMsg2 : RaState → Bool
  | idle => false
  | msg2 => false
  | _ => true

/-- What is read of NR_RA_t. -/
structure RaProc where
  state : RaState
  rnti : ℕ

/-- What is read of the MAC: the UEs, the random access procedures and the tables of buffer sizes. -/
structure UlMacEnv where
  maxMobiles : ℕ
  active : ℕ → Bool
  rnti : ℕ → ℕ
  cellGroup : ℕ → Bool
  ra : List RaProc
  shortBsrTable : ℕ → ℕ
  longBsrTable : ℕ → ℕ

/-- find_nr_UE_id. -/
def UlMacEnv.findNrUeId (env : UlMacEnv) (rnti : ℕ) : Option ℕ :=
  (List.range env.maxMobiles).find? fun ueId => env.active ueId && env.rnti ueId == rnti

/-- The first random access procedure after Msg2 that has the RNTI of the UE. -/
def UlMacEnv.raOf (env : UlMacEnv) (ueId : ℕ) : Option ℕ :=
  env.ra.findIdx? fun ra => ra.state.afterMsg2 && ra.rnti == env.rnti ueId

/-- What is written: the UE's `sched_ctrl` and `lc_bytes` of the DTCH, and the C-RNTI of a random access
procedure. -/
structure UlMacState where
  estimatedUlBuffer : ℕ
  ph : ℤ
  pcmax : ℤ
  lcBytes : ℕ
  raCrnti : ℕ → ℕ
  raMsg3DcchDtch : ℕ → Bool

/-- How the PDU is left. -/
inductive MacPduErr
  /-- A read behind the PDU. -/
  | outside
  /-- An SDU that is not wholly in the PDU. -/
  | sduOutside
  /-- An index -1 of a UE. -/
  | ueIndex
  /-- "Received LCID %d which is not configured, dropping packet". -/
  | notConfigured
  deriving DecidableEq, Repr

/-- What is handed to the RLC or to the RRC. -/
inductive UlSdu
  | rlc (rnti lcid : ℕ) (sdu : List UInt8)
  | rrc (rnti : ℕ) (sdu : List UInt8)
  deriving DecidableEq, Repr

/-- What comes after a subPDU: the call returns, the PDU is done, or there is a payload behind a
subheader. -/
inductive Turn
  | ret
  | done (len : ℕ)
  | next (macSubheaderLen macLen : ℕ)
  deriving DecidableEq, Repr

namespace UlMacEnv

/-- pduP[i]. -/
def octet (pdu : List UInt8) (i : ℕ) : Except MacPduErr ℕ :=
  match pdu[i]? with
  | some b => .ok b.toNat
  | none => .error .outside

/-- An SDU of some octets. -/
def sduAt (pdu : List UInt8) (start len : ℕ) : Except MacPduErr (List UInt8) :=
  if start + len ≤ pdu.length then .ok ((pdu.drop start).take len) else .error .sduOutside

/-- The loop that looks for an octet of the CCCH1 message that is not 0. -/
def zeroOctets : List UInt8 → ℕ → Except MacPduErr Bool
  | _, 0 => .ok true
  | [], _ + 1 => .error .outside
  | b :: bs, n + 1 => if b = 0 then zeroOctets bs n else .ok false

/-- The LCGs in the bitmap of a long BSR. -/
def nLcg (bitmap : ℕ) : ℕ := (List.range 8).countP fun i => bitmap.testBit i

/-- The RNTI and the UE of an SDU on SRB 1 or 2. During a random access procedure the subPDU behind it
is looked at for the C-RNTI. -/
def srbUe (env : UlMacEnv) (ueId : ℕ) (pdu : List UInt8) (next : ℕ) :
    Except MacPduErr (ℕ × Option ℕ) :=
  match env.raOf ueId with
  | none => .ok (env.rnti ueId, some ueId)
  | some _ => do
      let header ← octet pdu next
      if header % 64 = UlSchLcid.cRnti.code then
        let high ← octet pdu (next + 1)
        let low ← octet pdu (next + 2)
        .ok (256 * high + low, env.findNrUeId (256 * high + low))
      else .ok (env.rnti ueId, some ueId)

/-- The cases of nr_process_mac_pdu. -/
def subPdu (env : UlMacEnv) (ueId : ℕ) (st : UlMacState) (pdu : List UInt8) :
    UlSchLcid → Except MacPduErr (Turn × UlMacState × List UlSdu)
  | .recommendedBitrateQuery => .ok (.next 1 2, st, [])
  | .configuredGrantConfirmation => .ok (.next 1 0, st, [])
  | .sBsr | .sTruncatedBsr => do
      let bsr ← octet pdu 1
      .ok (.next 1 1, { st with estimatedUlBuffer := env.shortBsrTable (bsr % 32) }, [])
  | .lBsr | .lTruncatedBsr =>
      match getMacLen pdu with
      | none => .ok (.ret, st, [])
      | some (macLen, macSubheaderLen) => do
          let bitmap ← octet pdu macSubheaderLen
          let sizes ← (List.range (nLcg bitmap)).mapM fun n => octet pdu (macSubheaderLen + 1 + n)
          .ok (.next macSubheaderLen macLen,
            { st with estimatedUlBuffer := (sizes.map env.longBsrTable).sum }, [])
  | .cRnti =>
      match env.raOf ueId with
      | none => .ok (.next 1 2, st, [])
      | some i => do
          let high ← octet pdu 1
          let low ← octet pdu 2
          .ok (.next 1 2,
            { st with
              raCrnti := Function.update st.raCrnti i (256 * high + low)
              raMsg3DcchDtch := Function.update st.raMsg3DcchDtch i true }, [])
  | .singleEntryPhr => do
      let ph ← octet pdu 1
      let pcmax ← octet pdu 2
      let PH : ℤ := ph % 64
      .ok (.next 1 2,
        { st with
          ph := if PH < 55 then PH - 32 else PH - 32 + (PH - 54)
          pcmax := (pcmax : ℤ) % 64 - 29 }, [])
  | .multiEntryPhr1Oct | .multiEntryPhr4Oct =>
      match getMacLen pdu with
      | none => .ok (.ret, st, [])
      | some (macLen, macSubheaderLen) => .ok (.next macSubheaderLen macLen, st, [])
  | .padding => .ok (.done 1, st, [])
  | .srb1 => srb .srb1
  | .srb2 => srb .srb2
  -- todo in the source: the length is not read
  | .srb3 => .ok (.next 1 0, st, [])
  | .ccch1 => do
      let zero ← zeroOctets pdu 9
      if zero then .ok (.done 9, st, [])
      else
        let sdu ← sduAt pdu 1 8
        .ok (.next 1 8, st, [.rrc (env.rnti ueId) sdu])
  | .ccch => do
      let sdu ← sduAt pdu 1 6
      .ok (.next 1 6, st, [.rrc (env.rnti ueId) sdu])
  | .dtch =>
      match getMacLen pdu with
      | none => .ok (.ret, st, [])
      | some (macLen, macSubheaderLen) => do
          let sdu ← sduAt pdu macSubheaderLen macLen
          .ok (.next macSubheaderLen macLen,
            { st with
              lcBytes := st.lcBytes + macLen
              estimatedUlBuffer :=
                if st.estimatedUlBuffer ≥ macLen then st.estimatedUlBuffer - macLen else 0 },
            [.rlc (env.rnti ueId) UlSchLcid.dtch.code sdu])
where
  srb (lcid : UlSchLcid) : Except MacPduErr (Turn × UlMacState × List UlSdu) :=
    match getMacLen pdu with
    | none => .ok (.ret, st, [])
    | some (macLen, macSubheaderLen) => do
        let ue ← srbUe env ueId pdu (macSubheaderLen + macLen)
        match ue.2 with
        | none => .error .ueIndex
        | some ueIdx =>
            if env.cellGroup ueIdx then
              let sdu ← sduAt pdu macSubheaderLen macLen
              .ok (.next macSubheaderLen macLen, st, [.rlc ue.1 lcid.code sdu])
            else .error .notConfigured

/-- A subPDU that was gone through. -/
structure Visit where
  lcid : UlSchLcid
  macSubheaderLen : ℕ
  payload : List UInt8
  deriving DecidableEq, Repr

/-- What the call returns, the state it leaves, and what it went through and handed on. -/
structure Processed where
  ret : ℤ
  state : UlMacState
  visits : List Visit
  sdus : List UlSdu

/-- nr_process_mac_pdu. A subheader has an octet at least. Behind a subPDU that is not wholly in the
PDU 20 octets are printed. -/
def nrProcessMacPdu (env : UlMacEnv) (ueId : ℕ) (st : UlMacState) :
    List UInt8 → Except MacPduErr Processed
  | [] => .ok { ret := 0, state := st, visits := [], sdus := [] }
  | b :: bs =>
      match UlSchLcid.ofCode (lcidOf b) with
      | none => .ok { ret := -1, state := st, visits := [], sdus := [] }
      | some lcid =>
          match subPdu env ueId st (b :: bs) lcid with
          | .error e => .error e
          | .ok (.ret, st', sdus) => .ok { ret := 0, state := st', visits := [], sdus := sdus }
          | .ok (.done len, st', sdus) =>
              if len > (b :: bs).length then .error .outside
              else .ok { ret := 0, state := st', visits := [], sdus := sdus }
          | .ok (.next macSubheaderLen macLen, st', sdus) =>
              if macSubheaderLen + macLen > (b :: bs).length then .error .outside
              else
                match nrProcessMacPdu env ueId st' (bs.drop (macSubheaderLen + macLen - 1)) with
                | .error e => .error e
                | .ok r =>
                    .ok { r with
                      visits :=
                        { lcid := lcid
                          macSubheaderLen := macSubheaderLen
                          payload := ((b :: bs).drop macSubheaderLen).take macLen } :: r.visits
                      sdus := sdus ++ r.sdus }
termination_by pdu => pdu.length
decreasing_by
  simp only [List.length_drop, List.length_cons]
  omega

end UlMacEnv

/-!
## One subPDU of the uplink

Nothing is checked but whether a subheader is complete. So the step is safe if the subPDU ends in the
PDU and everything that is read for it is there.
-/

/-- The LCID at the front of a rest of the PDU. -/
def lcidAt (t : List UInt8) : Option UlSchLcid := t.head?.bind fun b => UlSchLcid.ofCode (lcidOf b)

/-- The subheader and the payload at the front that the loop takes, if it goes on behind them. -/
def chunk (t : List UInt8) : Option (ℕ × ℕ) :=
  match lcidAt t with
  | none => none
  | some lcid =>
      match lcid with
      | .padding => none
      | .configuredGrantConfirmation | .srb3 => some (1, 0)
      | .sBsr | .sTruncatedBsr => some (1, 1)
      | .recommendedBitrateQuery | .cRnti | .singleEntryPhr => some (1, 2)
      | .ccch => some (1, 6)
      | .ccch1 => if t.take 9 = List.replicate 9 0 then none else some (1, 8)
      | _ => (getMacLen t).map Prod.swap

namespace UlMacEnv

/-- Behind the subheader there is a complete C-RNTI, that of a UE that is configured. -/
def CRntiKnown (env : UlMacEnv) : List UInt8 → Prop
  | high :: low :: _ =>
      ∃ ueIdx, env.findNrUeId (256 * high.toNat + low.toNat) = some ueIdx ∧
        env.cellGroup ueIdx = true
  | _ => False

/-- There is a subPDU, and the UE is configured: the one of its C-RNTI, if it is one, or else the one
that sent the PDU. -/
def ConfiguredBy (env : UlMacEnv) (ueId : ℕ) : List UInt8 → Prop
  | [] => False
  | b :: bs =>
      if lcidOf b = UlSchLcid.cRnti.code then env.CRntiKnown bs else env.cellGroup ueId = true

/-- The UE of an SDU on SRB 1 or 2 is configured. During a random access procedure the subPDU behind
the SDU is looked at. -/
def Configured (env : UlMacEnv) (ueId : ℕ) (rest : List UInt8) : Prop :=
  if env.raOf ueId = none then env.cellGroup ueId = true else env.ConfiguredBy ueId rest

/-- Everything that the subPDU at the front needs is in the PDU. -/
def Inside (env : UlMacEnv) (ueId : ℕ) (t : List UInt8) : Prop :=
  match lcidAt t with
  | none => True
  | some lcid =>
      match lcid with
      | .padding | .configuredGrantConfirmation | .srb3 => True
      | .sBsr | .sTruncatedBsr => 2 ≤ t.length
      | .recommendedBitrateQuery | .cRnti | .singleEntryPhr => 3 ≤ t.length
      | .ccch => 7 ≤ t.length
      | .ccch1 => 9 ≤ t.length
      | .lBsr | .lTruncatedBsr => ∀ macLen hdr, getMacLen t = some (macLen, hdr) →
          hdr + macLen ≤ t.length ∧ ∃ bitmap bs, t.drop hdr = bitmap :: bs ∧
            nLcg bitmap.toNat ≤ bs.length
      | .multiEntryPhr1Oct | .multiEntryPhr4Oct | .dtch => ∀ macLen hdr,
          getMacLen t = some (macLen, hdr) → hdr + macLen ≤ t.length
      | .srb1 | .srb2 => ∀ macLen hdr, getMacLen t = some (macLen, hdr) →
          hdr + macLen ≤ t.length ∧ env.Configured ueId (t.drop (hdr + macLen))

end UlMacEnv

/-- What comes next is in the PDU. -/
def Turn.Fits (t : List UInt8) : Turn → Prop
  | .ret => True
  | .done len => len ≤ t.length
  | .next macSubheaderLen macLen => macSubheaderLen + macLen ≤ t.length

/-- What the loop takes, if it goes on. -/
def Turn.chunk : Turn → Option (ℕ × ℕ)
  | .ret => none
  | .done _ => none
  | .next macSubheaderLen macLen => some (macSubheaderLen, macLen)

namespace UlMacEnv

variable {env : UlMacEnv} {ueId : ℕ} {st : UlMacState} {t : List UInt8} {lcid : UlSchLcid}

/-- A step that is in the PDU, and goes on as the chunk says. -/
def StepRight (t : List UInt8) (x : Except MacPduErr (Turn × UlMacState × List UlSdu)) : Prop :=
  ∃ turn st' sdus, x = .ok (turn, st', sdus) ∧ turn.Fits t ∧ turn.chunk = chunk t

/-- A step that is not in the PDU. -/
def StepWrong (t : List UInt8) (x : Except MacPduErr (Turn × UlMacState × List UlSdu)) : Prop :=
  (∃ e, x = .error e) ∨ ∃ turn st' sdus, x = .ok (turn, st', sdus) ∧ ¬ turn.Fits t

theorem octet_add (t : List UInt8) (n i : ℕ) : octet t (n + i) = octet (t.drop n) i := by
  rw [octet, octet, List.getElem?_drop]

theorem octet_of_le {i : ℕ} (h : t.length ≤ i) : octet t i = .error .outside := by
  rw [octet, List.getElem?_eq_none h]

theorem exists_octet {i : ℕ} (h : i < t.length) : ∃ n, octet t i = .ok n := by
  rw [octet, List.getElem?_eq_getElem h]
  exact ⟨_, rfl⟩

/-- Reads of several octets. -/
theorem mapM_octet {l : List ℕ} {f : ℕ → ℕ} (h : ∀ i ∈ l, f i < t.length) :
    ∃ sizes, (l.mapM fun i => octet t (f i)) = .ok sizes := by
  induction l with
  | nil => exact ⟨[], rfl⟩
  | cons i l ih =>
      obtain ⟨n, hn⟩ := exists_octet (h i List.mem_cons_self)
      obtain ⟨sizes, hchunks⟩ := ih fun j hj => h j (List.mem_cons_of_mem i hj)
      rw [List.mapM_cons, hn, hchunks]
      exact ⟨n :: sizes, rfl⟩

theorem mapM_octet_error {l : List ℕ} {f : ℕ → ℕ} {i : ℕ} (hi : i ∈ l) (h : t.length ≤ f i) :
    ∃ e, (l.mapM fun i => octet t (f i)) = .error e := by
  induction l with
  | nil => cases hi
  | cons j l ih =>
      rw [List.mapM_cons]
      cases hj : octet t (f j) with
      | error e => exact ⟨e, rfl⟩
      | ok n =>
          rcases List.mem_cons.mp hi with rfl | hi
          · rw [octet_of_le h] at hj
            cases hj
          · obtain ⟨e, he⟩ := ih hi
            rw [he]
            exact ⟨e, rfl⟩

theorem zeroOctets_of_le : ∀ {t : List UInt8} {n : ℕ}, n ≤ t.length →
    zeroOctets t n = .ok (decide (t.take n = List.replicate n 0))
  | t, 0, _ => by rw [zeroOctets, List.take_zero, List.replicate_zero]; rfl
  | [], n + 1, h => absurd h (Nat.not_succ_le_zero n)
  | b :: bs, n + 1, h => by
      rw [zeroOctets, List.take_succ_cons, List.replicate_succ]
      by_cases hb : b = 0
      · rw [if_pos hb, zeroOctets_of_le (Nat.le_of_succ_le_succ h)]
        simp [hb]
      · rw [if_neg hb]
        simp [hb]

/-- Too few octets, or one that is not 0. -/
theorem zeroOctets_of_lt : ∀ {t : List UInt8} {n : ℕ}, t.length < n →
    zeroOctets t n = .error .outside ∨ zeroOctets t n = .ok false
  | t, 0, h => absurd h (Nat.not_lt_zero _)
  | [], _ + 1, _ => .inl rfl
  | b :: bs, n + 1, h => by
      rw [zeroOctets]
      split
      · exact zeroOctets_of_lt (Nat.lt_of_succ_lt_succ h)
      · exact .inr rfl

/-- What srbUe may give: a UE that is configured, or what ends the call. -/
def SrbRight (env : UlMacEnv) (x : Except MacPduErr (ℕ × Option ℕ)) : Prop :=
  ∃ rnti ueIdx, x = .ok (rnti, some ueIdx) ∧ env.cellGroup ueIdx = true

def SrbWrong (env : UlMacEnv) (x : Except MacPduErr (ℕ × Option ℕ)) : Prop :=
  (∃ e, x = .error e) ∨ (∃ rnti, x = .ok (rnti, none)) ∨
    ∃ rnti ueIdx, x = .ok (rnti, some ueIdx) ∧ env.cellGroup ueIdx = false

theorem srb_of_cellGroup (env : UlMacEnv) (rnti ueId : ℕ) :
    (env.cellGroup ueId = true ∧ env.SrbRight (.ok (rnti, some ueId))) ∨
      (¬ env.cellGroup ueId = true ∧ env.SrbWrong (.ok (rnti, some ueId))) := by
  cases hcg : env.cellGroup ueId with
  | true => exact .inl ⟨rfl, rnti, ueId, rfl, hcg⟩
  | false => exact .inr ⟨Bool.false_ne_true, .inr (.inr ⟨rnti, ueId, rfl, hcg⟩)⟩

/-- The two octets behind the subheader of a C-RNTI. -/
theorem srb_of_cRnti (env : UlMacEnv) (bs : List UInt8) :
    (env.CRntiKnown bs ∧ env.SrbRight (do
      let high ← octet bs 0
      let low ← octet bs 1
      .ok (256 * high + low, env.findNrUeId (256 * high + low)))) ∨
    (¬ env.CRntiKnown bs ∧ env.SrbWrong (do
      let high ← octet bs 0
      let low ← octet bs 1
      .ok (256 * high + low, env.findNrUeId (256 * high + low)))) := by
  rcases bs with - | ⟨high, bs⟩
  · exact .inr ⟨id, .inl ⟨_, rfl⟩⟩
  rcases bs with - | ⟨low, bs⟩
  · exact .inr ⟨id, .inl ⟨_, rfl⟩⟩
  have hok : (do
      let h ← octet (high :: low :: bs) 0
      let l ← octet (high :: low :: bs) 1
      Except.ok (256 * h + l, env.findNrUeId (256 * h + l))) =
      Except.ok (256 * high.toNat + low.toNat,
        env.findNrUeId (256 * high.toNat + low.toNat)) := rfl
  rw [hok, CRntiKnown]
  cases env.findNrUeId (256 * high.toNat + low.toNat) with
  | none => exact .inr ⟨fun ⟨_, he, _⟩ => (nomatch he), .inr (.inl ⟨_, rfl⟩)⟩
  | some ueIdx =>
      simp only [Option.some.injEq, exists_eq_left']
      exact env.srb_of_cellGroup _ ueIdx

/-- The UE of an SDU on SRB 1 or 2 is found and configured, or the call ends. -/
theorem srbUe_spec (env : UlMacEnv) (ueId : ℕ) (t : List UInt8) (next : ℕ) :
    (env.Configured ueId (t.drop next) ∧ env.SrbRight (srbUe env ueId t next)) ∨
      (¬ env.Configured ueId (t.drop next) ∧ env.SrbWrong (srbUe env ueId t next)) := by
  have hfirst := octet_add t next 0
  rw [Nat.add_zero] at hfirst
  rw [srbUe, Configured, hfirst, octet_add, octet_add]
  generalize t.drop next = rest
  cases env.raOf ueId with
  | none => exact env.srb_of_cellGroup _ ueId
  | some ra =>
      cases rest with
      | nil => exact .inr ⟨id, .inl ⟨_, rfl⟩⟩
      | cons b bs =>
          rw [if_neg (Option.some_ne_none ra), ConfiguredBy]
          by_cases hc : lcidOf b = UlSchLcid.cRnti.code
          · rw [if_pos hc]
            have hstep : (do
                let header ← octet (b :: bs) 0
                if header % 64 = UlSchLcid.cRnti.code then
                  let high ← octet (b :: bs) 1
                  let low ← octet (b :: bs) 2
                  Except.ok (256 * high + low, env.findNrUeId (256 * high + low))
                else Except.ok (env.rnti ueId, some ueId)) = (do
                  let high ← octet bs 0
                  let low ← octet bs 1
                  Except.ok (256 * high + low, env.findNrUeId (256 * high + low))) := if_pos hc
            dsimp only
            rw [hstep]
            exact env.srb_of_cRnti bs
          · rw [if_neg hc]
            have hstep : (do
                let header ← octet (b :: bs) 0
                if header % 64 = UlSchLcid.cRnti.code then
                  let high ← octet (b :: bs) 1
                  let low ← octet (b :: bs) 2
                  Except.ok (256 * high + low, env.findNrUeId (256 * high + low))
                else Except.ok (env.rnti ueId, some ueId)) =
                  Except.ok (env.rnti ueId, some ueId) := if_neg hc
            dsimp only
            rw [hstep]
            exact env.srb_of_cellGroup _ ueId

/-- A step is in the PDU, and goes on as the chunk says, exactly under a condition. -/
def StepSpec (P : Prop) (t : List UInt8) (x : Except MacPduErr (Turn × UlMacState × List UlSdu)) :
    Prop :=
  (P ∧ StepRight t x) ∨ (¬ P ∧ StepWrong t x)

/-- A subPDU of a fixed length: all that is read is in it. -/
theorem stepSpec_fixed {m : ℕ} {x : Except MacPduErr (Turn × UlMacState × List UlSdu)}
    (hchunk : chunk t = some (1, m))
    (hok : 1 + m ≤ t.length → ∃ st' sdus, x = .ok (.next 1 m, st', sdus))
    (hbad : t.length < 1 + m →
      (∃ e, x = .error e) ∨ ∃ st' sdus, x = .ok (.next 1 m, st', sdus)) :
    StepSpec (1 + m ≤ t.length) t x := by
  by_cases hm : 1 + m ≤ t.length
  · obtain ⟨st', sdus, hx⟩ := hok hm
    exact .inl ⟨hm, .next 1 m, st', sdus, hx, hm, hchunk.symm⟩
  · refine .inr ⟨hm, ?_⟩
    rcases hbad (Nat.lt_of_not_le hm) with he | ⟨st', sdus, hx⟩
    · exact .inl he
    · exact .inr ⟨.next 1 m, st', sdus, hx, hm⟩

/-- A subPDU with an L field: the call returns if the subheader is not complete. -/
theorem stepSpec_variable {Q : ℕ → ℕ → Prop}
    {f : ℕ → ℕ → Except MacPduErr (Turn × UlMacState × List UlSdu)}
    (hchunk : chunk t = (getMacLen t).map Prod.swap)
    (h : ∀ macLen hdr,
      (Q macLen hdr ∧ hdr + macLen ≤ t.length ∧
        ∃ st' sdus, f macLen hdr = .ok (.next hdr macLen, st', sdus)) ∨
      (¬ Q macLen hdr ∧ StepWrong t (f macLen hdr))) :
    StepSpec (∀ macLen hdr, getMacLen t = some (macLen, hdr) → Q macLen hdr) t
      (match getMacLen t with
        | none => .ok (.ret, st, [])
        | some (macLen, hdr) => f macLen hdr) := by
  cases hl : getMacLen t with
  | none =>
      rw [hl, Option.map_none] at hchunk
      exact .inl ⟨fun _ _ he => (nomatch he), .ret, st, [], rfl, trivial, hchunk.symm⟩
  | some len =>
      obtain ⟨macLen, hdr⟩ := len
      rw [hl, Option.map_some] at hchunk
      rcases h macLen hdr with ⟨hQ, hfit, st', sdus, hx⟩ | ⟨hQ, hwrong⟩
      · refine .inl ⟨fun _ _ he => ?_, .next hdr macLen, st', sdus, hx, hfit, hchunk.symm⟩
        cases he
        exact hQ
      · exact .inr ⟨fun hall => hQ (hall macLen hdr rfl), hwrong⟩

theorem sduAt_of_le {start len : ℕ} (h : start + len ≤ t.length) :
    sduAt t start len = .ok ((t.drop start).take len) := if_pos h

theorem sduAt_of_lt {start len : ℕ} (h : ¬ start + len ≤ t.length) :
    sduAt t start len = .error .sduOutside := if_neg h

/-- A read of the octets 1 and 2. -/
theorem octets_two (t : List UInt8) (g : ℕ → ℕ → UlMacState) :
    (1 + 2 ≤ t.length → ∃ st' sdus, (do
      let high ← octet t 1
      let low ← octet t 2
      Except.ok (Turn.next 1 2, g high low, ([] : List UlSdu))) = .ok (.next 1 2, st', sdus)) ∧
    (t.length < 1 + 2 → ∃ e, (do
      let high ← octet t 1
      let low ← octet t 2
      Except.ok (Turn.next 1 2, g high low, ([] : List UlSdu))) = .error e) := by
  constructor
  · intro h
    obtain ⟨high, hhigh⟩ := exists_octet (show 1 < t.length by omega)
    obtain ⟨low, hlow⟩ := exists_octet (show 2 < t.length by omega)
    rw [hhigh, hlow]
    exact ⟨_, _, rfl⟩
  · intro h
    rw [octet_of_le (Nat.le_of_lt_succ h)]
    cases octet t 1 with
    | error e => exact ⟨e, rfl⟩
    | ok high => exact ⟨_, rfl⟩

/-- A short BSR. -/
theorem shortBsr_spec (hchunk : chunk t = some (1, 1)) (g : ℕ → UlMacState) :
    StepSpec (2 ≤ t.length) t (do
      let bsr ← octet t 1
      .ok (.next 1 1, g bsr, [])) := by
  refine stepSpec_fixed (m := 1) hchunk (fun h => ?_) (fun h => ?_)
  · obtain ⟨bsr, hbsr⟩ := exists_octet (show 1 < t.length from h)
    rw [hbsr]
    exact ⟨_, _, rfl⟩
  · rw [octet_of_le (Nat.le_of_lt_succ h)]
    exact .inl ⟨_, rfl⟩

/-- A long BSR: the octets that the bitmap says are read, whatever L is. -/
theorem longBsr_spec (macLen hdr : ℕ) (g : List ℕ → UlMacState) :
    (((hdr + macLen ≤ t.length ∧ ∃ bitmap bs, t.drop hdr = bitmap :: bs ∧
        nLcg bitmap.toNat ≤ bs.length) ∧ hdr + macLen ≤ t.length ∧
      ∃ st' sdus, (do
        let bitmap ← octet t hdr
        let sizes ← (List.range (nLcg bitmap)).mapM fun n => octet t (hdr + 1 + n)
        Except.ok (Turn.next hdr macLen, g sizes, ([] : List UlSdu))) =
          .ok (.next hdr macLen, st', sdus)) ∨
    (¬ (hdr + macLen ≤ t.length ∧ ∃ bitmap bs, t.drop hdr = bitmap :: bs ∧
        nLcg bitmap.toNat ≤ bs.length) ∧
      StepWrong t (do
        let bitmap ← octet t hdr
        let sizes ← (List.range (nLcg bitmap)).mapM fun n => octet t (hdr + 1 + n)
        .ok (.next hdr macLen, g sizes, [])))) := by
  have hfirst := octet_add t hdr 0
  rw [Nat.add_zero] at hfirst
  cases hd : t.drop hdr with
  | nil =>
      rw [hfirst, hd]
      exact .inr ⟨fun ⟨_, _, _, he, _⟩ => (nomatch he), .inl ⟨_, rfl⟩⟩
  | cons bitmap bs =>
      have hlen : t.length = hdr + (bs.length + 1) := by
        have := congrArg List.length hd
        rw [List.length_drop, List.length_cons] at this
        omega
      have hbitmap : octet t hdr = .ok bitmap.toNat := by
        rw [hfirst, hd]
        rfl
      rw [hbitmap]
      by_cases hn : nLcg bitmap.toNat ≤ bs.length
      · obtain ⟨sizes, hchunks⟩ := mapM_octet (t := t) (l := List.range (nLcg bitmap.toNat))
          (f := fun n => hdr + 1 + n) fun n hmem => by
            have := List.mem_range.mp hmem
            omega
        by_cases hle : hdr + macLen ≤ t.length
        · refine .inl ⟨⟨hle, bitmap, bs, rfl, hn⟩, hle, g sizes, [], ?_⟩
          exact congrArg (· >>= fun sizes => Except.ok (Turn.next hdr macLen, g sizes, [])) hchunks
        · refine .inr ⟨fun h => hle h.1, .inr ⟨.next hdr macLen, g sizes, [], ?_, hle⟩⟩
          exact congrArg (· >>= fun sizes => Except.ok (Turn.next hdr macLen, g sizes, [])) hchunks
      · obtain ⟨e, he⟩ := mapM_octet_error (t := t) (l := List.range (nLcg bitmap.toNat))
          (f := fun n => hdr + 1 + n) (i := bs.length) (List.mem_range.mpr (by omega)) (by omega)
        refine .inr ⟨fun ⟨_, bitmap', bs', heq, hn'⟩ => ?_, .inl ⟨e, ?_⟩⟩
        · cases heq
          exact hn hn'
        · exact congrArg (· >>= fun sizes => Except.ok (Turn.next hdr macLen, g sizes, [])) he

/-- The CCCH1 message: nine octets that are 0 end the PDU. -/
theorem ccch1_spec (hl : lcidAt t = some .ccch1) :
    StepSpec (9 ≤ t.length) t (subPdu env ueId st t .ccch1) := by
  have hchunk : chunk t = if t.take 9 = List.replicate 9 0 then none else some (1, 8) := by
    simp only [chunk, hl]
  rw [subPdu]
  by_cases hle : 9 ≤ t.length
  · rw [zeroOctets_of_le hle]
    refine .inl ⟨hle, ?_⟩
    by_cases hz : t.take 9 = List.replicate 9 0
    · rw [if_pos hz] at hchunk
      rw [decide_eq_true hz]
      exact ⟨.done 9, st, [], rfl, hle, hchunk.symm⟩
    · rw [if_neg hz] at hchunk
      rw [decide_eq_false hz, sduAt_of_le hle]
      exact ⟨.next 1 8, st, _, rfl, hle, hchunk.symm⟩
  · refine .inr ⟨hle, .inl ?_⟩
    rw [sduAt_of_lt hle]
    rcases zeroOctets_of_lt (Nat.lt_of_not_le hle) with hz | hz
    · rw [hz]
      exact ⟨_, rfl⟩
    · rw [hz]
      exact ⟨_, rfl⟩

/-- An SDU of SRB 1 or 2. -/
theorem srb_spec (hchunk : chunk t = (getMacLen t).map Prod.swap) :
    StepSpec (∀ macLen hdr, getMacLen t = some (macLen, hdr) →
        hdr + macLen ≤ t.length ∧ env.Configured ueId (t.drop (hdr + macLen))) t
      (subPdu.srb env ueId st t lcid) := by
  rw [subPdu.srb]
  refine stepSpec_variable hchunk fun macLen hdr => ?_
  rcases srbUe_spec env ueId t (hdr + macLen) with ⟨hconf, rnti, ueIdx, hue, hcg⟩ | ⟨hconf, hwrong⟩
  · rw [hue]
    by_cases hle : hdr + macLen ≤ t.length
    · refine .inl ⟨⟨hle, hconf⟩, hle, st, [.rlc rnti lcid.code ((t.drop hdr).take macLen)], ?_⟩
      simp only [bind, Except.bind, hcg, if_true, sduAt_of_le hle]
    · refine .inr ⟨fun h => hle h.1, .inl ⟨.sduOutside, ?_⟩⟩
      simp only [bind, Except.bind, hcg, if_true, sduAt_of_lt hle]
  · refine .inr ⟨fun h => hconf h.2, .inl ?_⟩
    rcases hwrong with ⟨e, hue⟩ | ⟨rnti, hue⟩ | ⟨rnti, ueIdx, hue, hcg⟩
    · rw [hue]
      exact ⟨e, rfl⟩
    · rw [hue]
      exact ⟨.ueIndex, rfl⟩
    · refine ⟨.notConfigured, ?_⟩
      simp only [hue, bind, Except.bind, hcg, Bool.false_eq_true, if_false]

/-- One subPDU: everything it needs is in the PDU, or the call does not stay in it. -/
theorem subPdu_spec (env : UlMacEnv) (ueId : ℕ) (st : UlMacState) (hl : lcidAt t = some lcid) :
    StepSpec (env.Inside ueId t) t (subPdu env ueId st t lcid) := by
  cases lcid <;> simp only [Inside, hl]
  case ccch1 => exact ccch1_spec hl
  case srb1 | srb2 => exact srb_spec (by simp only [chunk, hl])
  case srb3 | configuredGrantConfirmation =>
    exact .inl ⟨trivial, .next 1 0, st, [], rfl, by
      rw [lcidAt] at hl
      cases t with
      | nil => cases hl
      | cons b bs => exact Nat.le_add_left 1 bs.length, by simp only [chunk, hl]; rfl⟩
  case padding =>
    exact .inl ⟨trivial, .done 1, st, [], rfl, by
      cases t with
      | nil => cases hl
      | cons b bs => exact Nat.le_add_left 1 bs.length, by simp only [chunk, hl]; rfl⟩
  case dtch =>
    refine stepSpec_variable (by simp only [chunk, hl]) fun macLen hdr => ?_
    by_cases hle : hdr + macLen ≤ t.length
    · rw [sduAt_of_le hle]
      exact .inl ⟨hle, hle, _, _, rfl⟩
    · rw [sduAt_of_lt hle]
      exact .inr ⟨hle, .inl ⟨_, rfl⟩⟩
  case ccch =>
    rw [subPdu]
    refine stepSpec_fixed (m := 6) (by simp only [chunk, hl]) (fun h => ?_) (fun h => ?_)
    · rw [sduAt_of_le h]
      exact ⟨_, _, rfl⟩
    · rw [sduAt_of_lt (Nat.not_le.mpr h)]
      exact .inl ⟨_, rfl⟩
  case recommendedBitrateQuery =>
    exact stepSpec_fixed (m := 2) (by simp only [chunk, hl]) (fun _ => ⟨st, [], rfl⟩)
      fun _ => .inr ⟨st, [], rfl⟩
  case multiEntryPhr4Oct | multiEntryPhr1Oct =>
    refine stepSpec_variable (by simp only [chunk, hl]) fun macLen hdr => ?_
    by_cases hle : hdr + macLen ≤ t.length
    · exact .inl ⟨hle, hle, st, [], rfl⟩
    · exact .inr ⟨hle, .inr ⟨_, st, [], rfl, hle⟩⟩
  case singleEntryPhr =>
    have h := octets_two t fun (ph pcmax : ℕ) =>
      { st with
        ph := if (ph % 64 : ℤ) < 55 then (ph % 64 : ℤ) - 32
          else (ph % 64 : ℤ) - 32 + ((ph % 64 : ℤ) - 54)
        pcmax := (pcmax : ℤ) % 64 - 29 }
    exact stepSpec_fixed (m := 2) (by simp only [chunk, hl]) h.1 fun hlt => .inl (h.2 hlt)
  case cRnti =>
    rw [subPdu]
    cases env.raOf ueId with
    | none =>
        exact stepSpec_fixed (m := 2) (by simp only [chunk, hl]) (fun _ => ⟨st, [], rfl⟩)
          fun _ => .inr ⟨st, [], rfl⟩
    | some i =>
        have h := octets_two t fun high low =>
          { st with
            raCrnti := Function.update st.raCrnti i (256 * high + low)
            raMsg3DcchDtch := Function.update st.raMsg3DcchDtch i true }
        exact stepSpec_fixed (m := 2) (by simp only [chunk, hl]) h.1 fun hlt => .inl (h.2 hlt)
  case sTruncatedBsr | sBsr =>
    exact shortBsr_spec (by simp only [chunk, hl]) _
  case lTruncatedBsr | lBsr =>
    refine stepSpec_variable (by simp only [chunk, hl]) fun macLen hdr => ?_
    exact longBsr_spec macLen hdr _

end UlMacEnv

end OaiCu.NrMac
