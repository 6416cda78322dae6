import OaiCu.NrMac.DlCe

/-!
# The assembly of a downlink MAC PDU

The branch of `nr_schedule_ue_spec` for an initial transmission: the control elements, what the RLC
gives for every logical channel, and padding. The RLC is a parameter. It may give less than it is asked
for.
-/

namespace OaiCu.NrMac

open Memory

variable {σ : Type*} {tbs : ℕ}

/-- mac_rlc_data_req: a state of the RLC, an LCID and a number of octets give an SDU and a state. -/
structure DlRlc (σ : Type*) where
  dataReq : σ → Fin 32 → ℕ → List UInt8 × σ
  length_le (s : σ) (lcid : Fin 32) (ndata : ℕ) : (dataReq s lcid ndata).1.length ≤ ndata

/-- What is being filled: the memory from transportBlock on, buf as an offset, which is not behind
bufEnd, the RLC, and lc_bytes. -/
structure DlFill (σ : Type*) (tbs : ℕ) where
  mem : ℕ → UInt8
  buf : ℕ
  rlc : σ
  lcBytes : Fin 32 → ℕ
  buf_le : buf ≤ tbs

/-- An SDU of the RLC, and the header in front of it, for which space was reserved. -/
def DlFill.putSdu (st : DlFill σ tbs) (lcid : Fin 32) (sdu : List UInt8) (rlc : σ)
    (h : sdu.length + 3 ≤ tbs - st.buf) : DlFill σ tbs where
  mem := write (write st.mem (st.buf + 3) sdu) st.buf (subheaderLong lcid sdu.length)
  buf := st.buf + (sdu.length + 3)
  rlc := rlc
  lcBytes := Function.update st.lcBytes lcid (st.lcBytes lcid + sdu.length)
  buf_le := by
    have := st.buf_le
    omega

/-- The SDUs of one logical channel. As buf is not behind bufEnd, their difference is the same without a
sign. -/
def DlFill.fillLc (rlc : DlRlc σ) (bytesInBuffer : ℕ) (lcid : Fin 32) (st : DlFill σ tbs) :
    DlFill σ tbs :=
  if h : tbs - st.buf > 3 + 1 then
    let ndata := min bytesInBuffer (tbs - st.buf - 3)
    if (rlc.dataReq st.rlc lcid ndata).1.length = 0 then
      { st with rlc := (rlc.dataReq st.rlc lcid ndata).2 }
    else
      (st.putSdu lcid (rlc.dataReq st.rlc lcid ndata).1 (rlc.dataReq st.rlc lcid ndata).2 (by
        have := rlc.length_le st.rlc lcid ndata
        omega)).fillLc rlc bytesInBuffer lcid
  else st
termination_by tbs - st.buf
decreasing_by
  simp only [DlFill.putSdu]
  omega

/-- The SDUs of all logical channels. -/
def DlFill.fillLcs (rlc : DlRlc σ) (bytesInBuffer : Fin 32 → ℕ) (dlLcIds : List (Fin 32))
    (st : DlFill σ tbs) : DlFill σ tbs :=
  dlLcIds.foldl
    (fun st lcid =>
      if bytesInBuffer lcid = 0 then st else st.fillLc rlc (bytesInBuffer lcid) lcid) st

/-- Random data behind a padding header, for a test without traffic. -/
def DlFill.fillRandom (lrand48 : ℕ → UInt8) (st : DlFill σ tbs) : DlFill σ tbs :=
  if tbs - st.buf > 3 then
    { st with
      mem :=
        write (write st.mem st.buf (subheaderLong DlSchLcid.padding.code (tbs - (st.buf + 3))))
          (st.buf + 3) ((List.range (tbs - (st.buf + 3))).map lrand48)
      buf := tbs
      buf_le := Nat.le_refl tbs }
  else st

/-- The padding header, and zeros up to the end. -/
def DlFill.pad (st : DlFill σ tbs) : DlFill σ tbs :=
  if tbs - st.buf > 0 then
    { st with
      mem :=
        write (write st.mem st.buf (subheaderFixed DlSchLcid.padding.code)) (st.buf + 1)
          (List.replicate (tbs - (st.buf + 1)) 0)
      buf := tbs
      buf_le := Nat.le_refl tbs }
  else st

/-- What is read of the UE and of the parameters of the modem. -/
structure DlMacInput where
  ce : DlCeInput
  dlLcIds : List (Fin 32)
  bytesInBuffer : Fin 32 → ℕ
  numTotalBytes : ℕ
  phyTest : Bool
  doRa : Bool

/-- The control elements of an initial transmission: no DRX, no contention resolution id. -/
def DlMacInput.ceInput (x : DlMacInput) : DlCeInput :=
  { x.ce with
    drxCmd := 255
    ueContResId := none }

/-- The initial transmission. The assertions are the one on the timing advance and TBS > written. -/
def DlMacInput.initialTransmission (x : DlMacInput) (rlc : DlRlc σ) (lrand48 : ℕ → UInt8) (tbs : ℕ)
    (s : σ) (lcBytes : Fin 32 → ℕ) (transportBlock : ℕ → UInt8) : Option (DlFill σ tbs) :=
  match x.ceInput.nrWriteCeDlschPdu { mem := transportBlock, pos := 0 } with
  | none => none
  | some w =>
      if h : w.pos < tbs then
        let st : DlFill σ tbs :=
          { mem := w.mem
            buf := w.pos
            rlc := s
            lcBytes := lcBytes
            buf_le := Nat.le_of_lt h }
        let st :=
          if x.numTotalBytes > 0 then st.fillLcs rlc x.bytesInBuffer x.dlLcIds
          else if x.phyTest || x.doRa then st.fillRandom lrand48
          else st
        some st.pad
      else none

/-!
## Which downlink MAC PDUs can be read back

The transport block is always filled to its end and not beyond. Its subPDUs can be read back unless the
RLC gave an SDU that does not go into an L field, or a CSI-RS and CSI-IM resource set was activated: that
control element has no fixed length and is written without an L field.
-/

/-! ## What the RLC answers -/

/-- The SDUs of one logical channel, with some octets of room, and the room that they leave. -/
def DlRlc.answersLc (rlc : DlRlc σ) (bytesInBuffer : ℕ) (lcid : Fin 32) (room : ℕ) (s : σ) :
    List (List UInt8) × ℕ × σ :=
  if h : room > 3 + 1 then
    let answer := rlc.dataReq s lcid (min bytesInBuffer (room - 3))
    if answer.1.length = 0 then ([], room, answer.2)
    else
      let r := rlc.answersLc bytesInBuffer lcid (room - (answer.1.length + 3)) answer.2
      (answer.1 :: r.1, r.2)
  else ([], room, s)
termination_by room

/-- The SDUs of all logical channels. -/
def DlRlc.answers (rlc : DlRlc σ) (bytesInBuffer : Fin 32 → ℕ) :
    List (Fin 32) → ℕ → σ → List (Fin 32 × List UInt8)
  | [], _, _ => []
  | lcid :: lcids, room, s =>
      if bytesInBuffer lcid = 0 then rlc.answers bytesInBuffer lcids room s
      else
        let r := rlc.answersLc (bytesInBuffer lcid) lcid room s
        r.1.map (lcid, ·) ++ rlc.answers bytesInBuffer lcids r.2.1 r.2.2

/-- The RLC is never asked for more than the room behind a subheader. -/
theorem DlRlc.answersLc_length (rlc : DlRlc σ) (bytesInBuffer : ℕ) (lcid : Fin 32) (room : ℕ) :
    ∀ s : σ, (∀ sdu ∈ (rlc.answersLc bytesInBuffer lcid room s).1, sdu.length + 3 ≤ room) ∧
      (rlc.answersLc bytesInBuffer lcid room s).2.1 ≤ room := by
  induction room using Nat.strongRecOn with
  | ind room ih =>
  intro s
  rw [answersLc]
  split
  · dsimp only
    split
    · exact ⟨fun sdu h => absurd h List.not_mem_nil, Nat.le_refl room⟩
    · have hle := rlc.length_le s lcid (min bytesInBuffer (room - 3))
      generalize rlc.dataReq s lcid (min bytesInBuffer (room - 3)) = answer at hle ⊢
      obtain ⟨hsdus, hroom⟩ := ih (room - (answer.1.length + 3)) (by omega) answer.2
      refine ⟨?_, Nat.le_trans hroom (Nat.sub_le _ _)⟩
      rw [List.forall_mem_cons]
      exact ⟨by omega, fun sdu h => Nat.le_trans (hsdus sdu h) (Nat.sub_le _ _)⟩
  · exact ⟨fun sdu h => absurd h List.not_mem_nil, Nat.le_refl room⟩

theorem DlRlc.answers_length (rlc : DlRlc σ) (bytesInBuffer : Fin 32 → ℕ) (lcids : List (Fin 32)) :
    ∀ (room : ℕ) (s : σ), ∀ sdu ∈ rlc.answers bytesInBuffer lcids room s,
      sdu.2.length + 3 ≤ room := by
  induction lcids with
  | nil => exact fun _ _ sdu h => absurd h List.not_mem_nil
  | cons lcid lcids ih =>
      intro room s sdu h
      rw [answers] at h
      split at h
      · exact ih room s sdu h
      · obtain ⟨hsdus, hroom⟩ := rlc.answersLc_length (bytesInBuffer lcid) lcid room s
        rcases List.mem_append.mp h with h | h
        · obtain ⟨l, hl, rfl⟩ := List.mem_map.mp h
          exact hsdus l hl
        · exact Nat.le_trans (ih _ _ sdu h) hroom

/-! ## What is written -/

/-- A subPDU of an SDU. -/
def sduOctets (sdu : Fin 32 × List UInt8) : List UInt8 :=
  subheaderLong sdu.1 sdu.2.length ++ sdu.2

/-- The octets of random data behind a padding header. -/
def randomOctets (lrand48 : ℕ → UInt8) (room : ℕ) : List UInt8 :=
  if room > 3 then
    subheaderLong DlSchLcid.padding.code (room - 3) ++ (List.range (room - 3)).map lrand48
  else []

/-- The padding header and zeros. -/
def padOctets (room : ℕ) : List UInt8 :=
  if room > 0 then subheaderFixed DlSchLcid.padding.code ++ List.replicate (room - 1) 0 else []

theorem padOctets_length (room : ℕ) : (padOctets room).length = room := by
  rw [padOctets]
  split
  · rw [List.length_append, List.length_replicate]
    exact Nat.add_sub_cancel' ‹_›
  · exact (Nat.eq_zero_of_not_pos ‹_›).symm

/-- Some octets were put behind what is there. -/
def DlFill.Puts (st : DlFill σ tbs) (l : List UInt8) (st' : DlFill σ tbs) : Prop :=
  st'.mem = write st.mem st.buf l ∧ st'.buf = st.buf + l.length

namespace DlFill

theorem Puts.refl (st : DlFill σ tbs) : st.Puts [] st := ⟨write_nil.symm, rfl⟩

theorem Puts.trans {st st' st'' : DlFill σ tbs} {l l' : List UInt8} (h : st.Puts l st')
    (h' : st'.Puts l' st'') : st.Puts (l ++ l') st'' := by
  refine ⟨?_, ?_⟩
  · rw [h'.1, h.1, h.2, write_append]
  · rw [h'.2, h.2, List.length_append, Nat.add_assoc]

theorem puts_putSdu (st : DlFill σ tbs) (lcid : Fin 32) (sdu : List UInt8) (rlc : σ)
    (h : sdu.length + 3 ≤ tbs - st.buf) :
    st.Puts (sduOctets (lcid, sdu)) (st.putSdu lcid sdu rlc h) := by
  have hlen : (subheaderLong lcid sdu.length).length = 3 := rfl
  refine ⟨?_, ?_⟩
  · rw [sduOctets, ← write_before, hlen]
    rfl
  · rw [sduOctets, List.length_append, hlen, Nat.add_comm 3]
    rfl

theorem fillLc_puts (rlc : DlRlc σ) (bytesInBuffer : ℕ) (lcid : Fin 32) (st : DlFill σ tbs) :
    let r := rlc.answersLc bytesInBuffer lcid (tbs - st.buf) st.rlc
    st.Puts (r.1.flatMap fun sdu => sduOctets (lcid, sdu)) (st.fillLc rlc bytesInBuffer lcid) ∧
      tbs - (st.fillLc rlc bytesInBuffer lcid).buf = r.2.1 ∧
      (st.fillLc rlc bytesInBuffer lcid).rlc = r.2.2 := by
  induction hroom : tbs - st.buf using Nat.strongRecOn generalizing st with
  | ind room ih =>
  subst hroom
  rw [DlFill.fillLc, DlRlc.answersLc]
  by_cases h : tbs - st.buf > 3 + 1
  · rw [dif_pos h, dif_pos h]
    dsimp only
    by_cases hz :
        (rlc.dataReq st.rlc lcid (min bytesInBuffer (tbs - st.buf - 3))).1.length = 0
    · rw [if_pos hz, if_pos hz]
      exact ⟨Puts.refl st, rfl, rfl⟩
    · rw [if_neg hz, if_neg hz]
      generalize hput : st.putSdu lcid _ _ _ = st'
      have hputs := hput ▸ st.puts_putSdu lcid _ _ _
      have hrlc : st'.rlc = (rlc.dataReq st.rlc lcid (min bytesInBuffer (tbs - st.buf - 3))).2 := by
        rw [← hput]
        rfl
      have hbuf : tbs - st'.buf = tbs - st.buf -
          ((rlc.dataReq st.rlc lcid (min bytesInBuffer (tbs - st.buf - 3))).1.length + 3) := by
        rw [← hput]
        exact Nat.sub_add_eq _ _ _
      have hrest := ih (tbs - st'.buf) (by rw [hbuf]; omega) st' rfl
      rw [hbuf, hrlc] at hrest
      exact ⟨hputs.trans hrest.1, hrest.2⟩
  · rw [dif_neg h, dif_neg h]
    exact ⟨Puts.refl st, rfl, rfl⟩

theorem fillLcs_puts (rlc : DlRlc σ) (bytesInBuffer : Fin 32 → ℕ) (lcids : List (Fin 32))
    (st : DlFill σ tbs) :
    st.Puts ((rlc.answers bytesInBuffer lcids (tbs - st.buf) st.rlc).flatMap sduOctets)
      (st.fillLcs rlc bytesInBuffer lcids) := by
  induction lcids generalizing st with
  | nil => exact Puts.refl st
  | cons lcid lcids ih =>
      rw [fillLcs, List.foldl_cons, DlRlc.answers]
      by_cases hz : bytesInBuffer lcid = 0
      · rw [if_pos hz, if_pos hz]
        exact ih st
      · rw [if_neg hz, if_neg hz]
        obtain ⟨hputs, hroom, hrlc⟩ := st.fillLc_puts rlc (bytesInBuffer lcid) lcid
        have hrest := ih (st.fillLc rlc (bytesInBuffer lcid) lcid)
        rw [hroom, hrlc] at hrest
        rw [List.flatMap_append, List.flatMap_map]
        exact hputs.trans hrest

theorem fillRandom_puts (lrand48 : ℕ → UInt8) (st : DlFill σ tbs) :
    st.Puts (randomOctets lrand48 (tbs - st.buf)) (st.fillRandom lrand48) := by
  rw [fillRandom, randomOctets]
  by_cases h : tbs - st.buf > 3
  · rw [if_pos h, if_pos h, Nat.sub_sub]
    refine ⟨?_, ?_⟩
    · rw [← write_append]
      rfl
    · have hlen : (subheaderLong DlSchLcid.padding.code (tbs - (st.buf + 3))).length = 3 := rfl
      have hle := st.buf_le
      rw [List.length_append, List.length_map, List.length_range, hlen]
      dsimp only
      omega
  · rw [if_neg h, if_neg h]
    exact Puts.refl st

theorem pad_puts (st : DlFill σ tbs) : st.Puts (padOctets (tbs - st.buf)) st.pad := by
  have hlen := padOctets_length (tbs - st.buf)
  rw [padOctets] at hlen
  rw [pad, padOctets]
  by_cases h : tbs - st.buf > 0
  · rw [if_pos h] at hlen
    rw [if_pos h, if_pos h]
    refine ⟨?_, ?_⟩
    · rw [← write_append, Nat.sub_sub]
      rfl
    · rw [hlen, Nat.add_sub_cancel' st.buf_le]
  · rw [if_neg h, if_neg h]
    exact Puts.refl st

end DlFill

/-! ## What is read -/

/-- The first octet of a long subheader: F is its bit 6. -/
theorem subheaderLong_first (lcid : Fin 32) :
    lcidOf (fieldsOctet [(6, lcid), (1, 1), (1, 0)]) = lcid ∧
      fBit (fieldsOctet [(6, lcid), (1, 1), (1, 0)]) = true ∧
      4 ≤ (fieldsOctet [(6, lcid), (1, 1), (1, 0)]).toNat ∧
      dlPayloadLen lcid = some .inLField := by
  revert lcid
  decide

theorem reads_sdu {sdu : Fin 32 × List UInt8} (h : sdu.2.length < 65536) :
    Reads dlPayloadLen (sduOctets sdu) [((sdu.1 : ℕ), sdu.2)] := by
  obtain ⟨hlcid, hf, -, hlen⟩ := subheaderLong_first sdu.1
  have hfit : SubPdu.Fits
      { octet := fieldsOctet [(6, sdu.1), (1, 1), (1, 0)], payload := sdu.2 } .inLField := by
    rw [SubPdu.Fits, hf, if_pos rfl]
    exact h
  have hread := reads_encode dlPayloadLen_padding (by rw [SubPdu.lcid, hlcid, hlen]) hfit
  rw [SubPdu.lcid, hlcid] at hread
  have henc : SubPdu.encode
      { octet := fieldsOctet [(6, sdu.1), (1, 1), (1, 0)], payload := sdu.2 } .inLField =
      sduOctets sdu := by
    have hlow : UInt8.ofNat (sdu.2.length % 256) = UInt8.ofNat sdu.2.length :=
      UInt8.ofNat_mod_size
    simp only [SubPdu.encode, SubPdu.header, SubPdu.lField, hf, if_true, hlow]
    rfl
  rwa [henc] at hread

/-- The length of an SDU does not go into the L field. -/
theorem sdu_not_read {sdu : Fin 32 × List UInt8} (h : 65536 ≤ sdu.2.length) (rest : List UInt8)
    (xs : List (ℕ × List UInt8)) :
    readPdu dlPayloadLen (sduOctets sdu ++ rest) ≠ some (((sdu.1 : ℕ), sdu.2) :: xs) := by
  intro hr
  obtain ⟨hlcid, hf, -, hlen⟩ := subheaderLong_first sdu.1
  have hne : lcidOf (fieldsOctet [(6, sdu.1), (1, 1), (1, 0)]) ≠ lcidPadding := by
    rw [hlcid]
    exact Nat.ne_of_lt (Nat.lt_trans sdu.1.isLt (by decide))
  have hsub : subheaderAt dlPayloadLen (sduOctets sdu ++ rest) =
      some (3, 256 * (UInt8.ofNat (sdu.2.length / 256)).toNat +
        (UInt8.ofNat sdu.2.length).toNat) := by
    simp only [sduOctets, subheaderLong, List.cons_append, subheaderAt, hlcid, hlen, getMacLen, hf,
      if_true, Option.map_some, Prod.swap_prod_mk]
  have hpay := congrArg (fun y : ℕ × List UInt8 => y.2.length) (readPdu_eq_cons hne hsub hr).2
  have hle : sdu.2.length ≤ 256 * (UInt8.ofNat (sdu.2.length / 256)).toNat +
      (UInt8.ofNat sdu.2.length).toNat := Nat.le_trans (Nat.le_of_eq hpay) (List.length_take_le _ _)
  have hhigh := (UInt8.ofNat (sdu.2.length / 256)).toNat_lt
  have hlow := (UInt8.ofNat sdu.2.length).toNat_lt
  omega

/-- A row of SDUs is read back exactly if all their lengths go into the L field. -/
theorem readPdu_sdus_iff {rest : List UInt8} (hrest : readPdu dlPayloadLen rest = some [])
    (sdus : List (Fin 32 × List UInt8)) :
    readPdu dlPayloadLen (sdus.flatMap sduOctets ++ rest) =
        some (sdus.map fun sdu => ((sdu.1 : ℕ), sdu.2)) ↔
      ∀ sdu ∈ sdus, sdu.2.length < 65536 := by
  induction sdus with
  | nil => exact iff_of_true hrest fun sdu h => absurd h List.not_mem_nil
  | cons sdu sdus ih =>
      rw [List.flatMap_cons, List.append_assoc, List.map_cons, List.forall_mem_cons]
      by_cases h : sdu.2.length < 65536
      · have hiff := (reads_sdu h).iff (sdus.flatMap sduOctets ++ rest)
          (sdus.map fun sdu => ((sdu.1 : ℕ), sdu.2))
        rw [List.singleton_append] at hiff
        rw [hiff, ih]
        exact (and_iff_right h).symm
      · refine iff_of_false (sdu_not_read (Nat.le_of_not_lt h) _ _) fun hall => h hall.1

/-- What starts with a padding header is read as nothing. -/
theorem readPdu_padding {b : UInt8} (hb : lcidOf b = lcidPadding) (bs : List UInt8) :
    readPdu dlPayloadLen (b :: bs) = some [] := by
  have h : WellFormed dlPayloadLen (b :: bs) [] := .padding hb
  exact readPdu_of_wellFormed dlPayloadLen_padding h

theorem readPdu_padOctets (room : ℕ) : readPdu dlPayloadLen (padOctets room) = some [] := by
  rw [padOctets]
  split
  · exact readPdu_padding rfl _
  · exact readPdu_of_wellFormed dlPayloadLen_padding .empty

/-- Random data is read as padding. -/
theorem readPdu_randomOctets (lrand48 : ℕ → UInt8) (room : ℕ) (rest : List UInt8)
    (hrest : readPdu dlPayloadLen rest = some []) :
    readPdu dlPayloadLen (randomOctets lrand48 room ++ rest) = some [] := by
  rw [randomOctets]
  split
  · exact readPdu_padding rfl _
  · exact hrest

/-! ## The whole PDU -/

namespace DlMacInput

variable (x : DlMacInput) (rlc : DlRlc σ) (lrand48 : ℕ → UInt8) (tbs : ℕ) (s : σ)

/-- What the control elements leave of the transport block. -/
def room : ℕ := tbs - x.ceInput.octets.length

/-- The SDUs that the RLC gives. -/
def sdus : List (Fin 32 × List UInt8) :=
  if x.numTotalBytes > 0 then rlc.answers x.bytesInBuffer x.dlLcIds (x.room tbs) s else []

/-- What is put between the control elements and the padding. -/
def data : List UInt8 :=
  if x.numTotalBytes > 0 then (x.sdus rlc tbs s).flatMap sduOctets
  else if x.phyTest || x.doRa then randomOctets lrand48 (x.room tbs)
  else []

def octets : List UInt8 :=
  x.ceInput.octets ++
    (x.data rlc lrand48 tbs s ++
      padOctets (x.room tbs - (x.data rlc lrand48 tbs s).length))

/-- The PDU is as long as the transport block whatever was in the memory, nothing behind it is written,
and what is read of it is the control elements and the SDUs that the RLC gave. -/
def AssembledRight (lcBytes : Fin 32 → ℕ) : Prop :=
  ∃ octets : List UInt8, octets.length = tbs ∧
    (∀ transportBlock, ∃ st,
      x.initialTransmission rlc lrand48 tbs s lcBytes transportBlock = some st ∧
        st.mem = write transportBlock 0 octets) ∧
    readPdu dlPayloadLen octets =
      some (x.ceInput.seen ++ (x.sdus rlc tbs s).map fun sdu => ((sdu.1 : ℕ), sdu.2))

variable {x rlc lrand48 tbs s} {w : Writer UInt8} {m : ℕ → UInt8}

theorem pos_eq (hw : x.ceInput.nrWriteCeDlschPdu { mem := m, pos := 0 } = some w) :
    w.pos = x.ceInput.octets.length := by
  have h := DlCeInput.nrWriteCeDlschPdu_isSome hw { mem := m, pos := 0 }
  rw [Option.some.inj (hw.symm.trans h), Writer.put, Nat.zero_add]

theorem data_puts (x : DlMacInput) (rlc : DlRlc σ) (lrand48 : ℕ → UInt8) (st : DlFill σ tbs)
    (hbuf : st.buf = x.ceInput.octets.length) :
    st.Puts (x.data rlc lrand48 tbs st.rlc)
      (if x.numTotalBytes > 0 then st.fillLcs rlc x.bytesInBuffer x.dlLcIds
        else if x.phyTest || x.doRa then st.fillRandom lrand48
        else st) := by
  have hroom : x.room tbs = tbs - st.buf := by rw [room, hbuf]
  rw [data, sdus, hroom]
  by_cases hn : x.numTotalBytes > 0
  · rw [if_pos hn, if_pos hn, if_pos hn]
    exact st.fillLcs_puts rlc x.bytesInBuffer x.dlLcIds
  · rw [if_neg hn, if_neg hn]
    split
    · exact st.fillRandom_puts lrand48
    · exact DlFill.Puts.refl st

/-- What is in the memory after the call. -/
theorem initialTransmission_eq (rlc : DlRlc σ) (lrand48 : ℕ → UInt8) (s : σ)
    (hw : x.ceInput.nrWriteCeDlschPdu { mem := m, pos := 0 } = some w) (hlt : w.pos < tbs)
    (lcBytes : Fin 32 → ℕ) (transportBlock : ℕ → UInt8) :
    (x.octets rlc lrand48 tbs s).length = tbs ∧
      ∃ st, x.initialTransmission rlc lrand48 tbs s lcBytes transportBlock = some st ∧
        st.mem = write transportBlock 0 (x.octets rlc lrand48 tbs s) := by
  have hce := DlCeInput.nrWriteCeDlschPdu_isSome hw { mem := transportBlock, pos := 0 }
  have hpos : (Writer.put { mem := transportBlock, pos := 0 } x.ceInput.octets).pos =
      x.ceInput.octets.length := Nat.zero_add _
  have hlt' : (Writer.put { mem := transportBlock, pos := 0 } x.ceInput.octets).pos < tbs := by
    rw [hpos, ← pos_eq hw]
    exact hlt
  rw [initialTransmission, hce]
  dsimp only
  rw [dif_pos hlt']
  generalize hst : ({ mem := _, buf := _, rlc := s, lcBytes := lcBytes, buf_le := _ } : DlFill σ tbs)
    = st
  have hbuf : st.buf = x.ceInput.octets.length := by rw [← hst, ← hpos]
  have hrlc : st.rlc = s := by rw [← hst]
  have hmem : st.mem = write transportBlock 0 x.ceInput.octets := by rw [← hst]; rfl
  have hdata := x.data_puts rlc lrand48 st hbuf
  generalize (if x.numTotalBytes > 0 then st.fillLcs rlc x.bytesInBuffer x.dlLcIds
    else if x.phyTest || x.doRa then st.fillRandom lrand48 else st) = st' at hdata ⊢
  have hall := hdata.trans st'.pad_puts
  have hrest : tbs - st'.buf = x.room tbs - (x.data rlc lrand48 tbs s).length := by
    rw [hdata.2, hbuf, hrlc, room, Nat.sub_add_eq]
  rw [hrlc, hrest] at hall
  refine ⟨?_, st'.pad, rfl, ?_⟩
  · have hend : st'.pad.buf = tbs := by
      rw [st'.pad_puts.2, padOctets_length, Nat.add_sub_cancel' st'.buf_le]
    rw [octets, List.length_append, ← hbuf, ← hall.2, hend]
  · rw [hall.1, hmem, hbuf, octets, ← write_append transportBlock 0, Nat.zero_add]

/-- Behind the control elements there is a subheader. -/
theorem exists_first (x : DlMacInput) (rlc : DlRlc σ) (lrand48 : ℕ → UInt8) (s : σ)
    (h : x.ceInput.octets.length < tbs) :
    ∃ b bs, x.data rlc lrand48 tbs s ++
      padOctets (x.room tbs - (x.data rlc lrand48 tbs s).length) = b :: bs ∧ 4 ≤ b.toNat := by
  have hroom : x.room tbs > 0 := Nat.sub_pos_of_lt h
  have hpad : ∃ b bs, padOctets (x.room tbs) = b :: bs ∧ 4 ≤ b.toNat := by
    rw [padOctets, if_pos hroom]
    exact ⟨_, _, rfl, by decide⟩
  rw [data]
  by_cases hn : x.numTotalBytes > 0
  · rw [if_pos hn]
    cases x.sdus rlc tbs s with
    | nil => exact hpad
    | cons sdu sdus => exact ⟨_, _, rfl, (subheaderLong_first sdu.1).2.2.1⟩
  · rw [if_neg hn]
    by_cases hr : (x.phyTest || x.doRa) = true
    · rw [if_pos hr, randomOctets]
      by_cases h3 : x.room tbs > 3
      · rw [if_pos h3]
        exact ⟨_, _, rfl, by decide⟩
      · rw [if_neg h3]
        exact hpad
    · rw [if_neg hr]
      exact hpad

/-- In a transport block of 65538 octets every SDU is short enough. -/
theorem sdus_length (h : tbs ≤ 65538) : ∀ sdu ∈ x.sdus rlc tbs s, sdu.2.length < 65536 := by
  intro sdu hsdu
  rw [sdus] at hsdu
  split at hsdu
  · have := rlc.answers_length x.bytesInBuffer x.dlLcIds (x.room tbs) s sdu hsdu
    rw [room] at this
    omega
  · exact absurd hsdu List.not_mem_nil

theorem readPdu_data_iff :
    readPdu dlPayloadLen (x.data rlc lrand48 tbs s ++
        padOctets (x.room tbs - (x.data rlc lrand48 tbs s).length)) =
        some ((x.sdus rlc tbs s).map fun sdu => ((sdu.1 : ℕ), sdu.2)) ↔
      ∀ sdu ∈ x.sdus rlc tbs s, sdu.2.length < 65536 := by
  generalize hpad : padOctets _ = pad
  have hread : readPdu dlPayloadLen pad = some [] := hpad ▸ readPdu_padOctets _
  rw [data]
  by_cases hn : x.numTotalBytes > 0
  · rw [if_pos hn]
    exact readPdu_sdus_iff hread _
  · rw [if_neg hn, sdus, if_neg hn]
    refine iff_of_true ?_ fun sdu h => absurd h List.not_mem_nil
    split
    · exact readPdu_randomOctets lrand48 _ _ hread
    · exact hread

/-- The octets are read back exactly if no CSI-RS and CSI-IM resource set is activated, and no SDU of the
RLC is longer than an L field can say. -/
theorem readPdu_octets_iff (hlt : x.ceInput.octets.length < tbs) :
    readPdu dlPayloadLen (x.octets rlc lrand48 tbs s) =
        some (x.ceInput.seen ++ (x.sdus rlc tbs s).map fun sdu => ((sdu.1 : ℕ), sdu.2)) ↔
      x.ce.ctrl.csiIm.isScheduled = false ∧
        ∀ sdu ∈ x.sdus rlc tbs s, sdu.2.length < 65536 := by
  rw [octets, DlCeInput.octets_eq, DlCeInput.seen_eq, List.append_assoc, List.append_assoc,
    (DlCeInput.reads_ces x.ceInput).iff]
  cases hs : x.ce.ctrl.csiIm.isScheduled with
  | true =>
      obtain ⟨b, bs, hbs, hb⟩ :=
        x.exists_first rlc lrand48 s hlt
      rw [hbs]
      exact iff_of_false (DlCeInput.csiImCe_not_read x.ceInput hs hb bs _) fun h => (nomatch h.1)
  | false =>
      rw [(reads_of_not_isScheduled (show x.ceInput.csiImCe.isScheduled = false from hs)).iff, readPdu_data_iff]
      exact (and_iff_right rfl).symm

/-- Nothing but the reading can go wrong. -/
theorem assembledRight_iff_readPdu
    (hw : x.ceInput.nrWriteCeDlschPdu { mem := m, pos := 0 } = some w) (hlt : w.pos < tbs)
    (lcBytes : Fin 32 → ℕ) :
    x.AssembledRight rlc lrand48 tbs s lcBytes ↔
      readPdu dlPayloadLen (x.octets rlc lrand48 tbs s) =
        some (x.ceInput.seen ++ (x.sdus rlc tbs s).map fun sdu => ((sdu.1 : ℕ), sdu.2)) := by
  have heq := initialTransmission_eq rlc lrand48 s hw hlt lcBytes
  constructor
  · rintro ⟨octets, hlen, hmem, hoctets⟩
    obtain ⟨st, hst, hst'⟩ := hmem m
    obtain ⟨hlen', st', hst'', hmem'⟩ := heq m
    cases hst.symm.trans hst''
    rwa [eq_of_write_eq (hlen.trans hlen'.symm) (hst'.symm.trans hmem')] at hoctets
  · exact fun hoctets => ⟨_, (heq m).1, fun transportBlock => (heq transportBlock).2, hoctets⟩

/-- The assembly can be read back exactly if no CSI-RS and CSI-IM resource set is activated, and no SDU
of the RLC is longer than an L field can say. -/
theorem assembledRight_iff
    (hw : x.ceInput.nrWriteCeDlschPdu { mem := m, pos := 0 } = some w) (hlt : w.pos < tbs)
    (lcBytes : Fin 32 → ℕ) :
    x.AssembledRight rlc lrand48 tbs s lcBytes ↔
      x.ce.ctrl.csiIm.isScheduled = false ∧
        ∀ sdu ∈ x.sdus rlc tbs s, sdu.2.length < 65536 := by
  rw [assembledRight_iff_readPdu hw hlt lcBytes, readPdu_octets_iff (pos_eq hw ▸ hlt)]

/-- No control element is scheduled. -/
def unscheduled : UeMacCeCtrl where
  spZpCsiRs := { isScheduled := false, actDeact := false, servCellId := 0, bwpid := 0, rscId := 0 }
  csiIm :=
    { isScheduled := false, actDeact := false, servCellid := 0, bwpId := 0, im := false,
      csiImRscId := 0, nzpCsiRscId := 0, nbTciResourceSetId := 0, tciStateId := fun _ => 0 }
  pdcchStateInd := { isScheduled := false, servingCellId := 0, coresetId := 0, tciStateId := 0 }
  spCsiReportingPucch :=
    { isScheduled := false, servingCellId := 0, bwpId := 0, s0tos3ActDeact := fun _ => false }
  aperiCsiTrigger :=
    { isScheduled := false, servingCellId := 0, bwpId := 0, highest := 0, selected := fun _ => false }
  pdschTciStatesActDeact :=
    { isScheduled := false, servingCellId := 0, bwpId := 0, highest := 0, selected := fun _ => false }

/-- Some control elements, a timing advance of 31, and 300 octets on the DTCH. -/
def dtch (ctrl : UeMacCeCtrl) : DlMacInput where
  ce :=
    { tagId := 0, taApply := true, taUpdate := 31, ctrl := ctrl, drxCmd := 255, ueContResId := none,
      staleTagId := 0, staleR1 := 0 }
  dlLcIds := [1, 4]
  bytesInBuffer := fun lcid => if lcid = 4 then 300 else 0
  numTotalBytes := 300
  phyTest := false
  doRa := false

/-- An RLC that gives the octets of a queue, as many as it is asked for. -/
def queueRlc : DlRlc (List UInt8) where
  dataReq queue _ ndata := (queue.take ndata, queue.drop ndata)
  length_le _ _ ndata := List.length_take_le ndata _

/-- A transport block of 310 octets, with the timing advance and 300 octets of the DTCH. -/
theorem assembledRight_dtch :
    (dtch unscheduled).AssembledRight queueRlc (fun _ => 0) 310 (List.replicate 300 7)
      (fun _ => 0) :=
  (assembledRight_iff (m := fun _ => 0) rfl (by decide) _).mpr ⟨rfl, sdus_length (by decide)⟩

/-- The octet behind the LCID 0x37 is taken for its L field. -/
theorem assembledRight_wrong :
    ¬ (dtch
        { unscheduled with
          csiIm := { unscheduled.csiIm with isScheduled := true } }).AssembledRight
      queueRlc (fun _ => 0) 310 (List.replicate 300 7) (fun _ => 0) := by
  rw [assembledRight_iff_readPdu (m := fun _ => 0) rfl (by decide), readPdu_octets_iff (by decide)]
  exact fun h => (nomatch h.1)

end DlMacInput

end OaiCu.NrMac
