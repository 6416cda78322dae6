import OaiCu.OduMac.MuxBlock
import OaiCu.OduMac.DemuxSafe

/-!
# From the multiplexer to the demultiplexer

The demultiplexer gets a block that the multiplexer wrote. It reads the SDUs back when each length is
one octet and the index, which wraps at 256 octets, finds at each position what is written there.
-/

namespace OaiCu.OduMac

variable {rnti : ℕ} {block : List UInt8} {pos tbSize : ℕ} {dlData : List MacDlInfo}

/-- The SDUs that the multiplexer packs are those that the demultiplexer hands on, and nothing else
is. -/
def RoundTrips (rnti : ℕ) (dlData : List MacDlInfo) (tbSize : ℕ) : Prop :=
  ∃ block, macMuxPdu dlData [] tbSize = some block ∧
    ∃ fuel subPdus, unpackRxData (fun _ => true) rnti block fuel = (.returned, subPdus) ∧
      subPdus.map (·.msg) = dlData.map fun info => .ulData rnti info.lcId info.dlPdu

/-- The octets of a block with these SDUs. -/
def blockOf (dlData : List MacDlInfo) (tbSize : ℕ) : List UInt8 :=
  dlData.flatMap sduOctets ++ paddingOctets (tbSize - (dlData.flatMap sduOctets).length)

/-- The index leads to octets that are read like those at the position: the logical channel with bit
7 clear, the length and the payload. -/
structure ReadAlike (block : List UInt8) (pos len : ℕ) : Prop where
  lcId : lcIdAt block (pos % 2 ^ 8) = lcIdAt block pos
  flag : (octetAt block (pos % 2 ^ 8)).testBit 7 = false
  length : octetAt block ((pos + 1) % 2 ^ 8) = octetAt block (pos + 1)
  payload : (block.drop ((pos + 2) % 2 ^ 8)).take len = (block.drop (pos + 2)).take len

/-- Each SDU has a length of one octet and is read alike, and behind the last one the code stops. -/
def ReadBack (block : List UInt8) : ℕ → List MacDlInfo → Prop
  | pos, [] => Stops block pos
  | pos, info :: infos =>
    info.dlPdu.length ≤ 255 ∧ ReadAlike block pos info.dlPdu.length ∧
      ReadBack block (pos + (2 + info.dlPdu.length)) infos

/-- An SDU of a logical channel that is not empty. -/
structure IsSdu (info : MacDlInfo) : Prop where
  lcId_pos : 0 < info.lcId
  lcId_le : info.lcId ≤ MAC_LCID_MAX
  length_pos : 0 < info.dlPdu.length

/-! ## An SDU in a block -/

theorem sduOctets_short {info : MacDlInfo} (h : IsSdu info) (hshort : info.dlPdu.length ≤ 255) :
    sduOctets info = .ofNat info.lcId :: .ofNat info.dlPdu.length :: info.dlPdu := by
  have hlcId : info.lcId % 2 ^ 8 = info.lcId :=
    Nat.mod_eq_of_lt (h.lcId_le.trans_lt (by decide))
  have hlong : ¬255 < info.dlPdu.length := Nat.not_lt.mpr hshort
  rw [sduOctets, hlcId, if_pos h.lcId_le, lenOctets, if_neg hlong, if_neg hlong, Nat.zero_shiftLeft,
    List.cons_append, List.nil_append]
  exact congrArg (· :: _) UInt8.zero_or

/-- An SDU with a length of one octet that is written at a position. -/
structure WrittenAt (block : List UInt8) (pos : ℕ) (info : MacDlInfo) : Prop where
  first : octetAt block pos = info.lcId
  length : octetAt block (pos + 1) = info.dlPdu.length
  payload : (block.drop (pos + 2)).take info.dlPdu.length = info.dlPdu
  ends : pos + (2 + info.dlPdu.length) ≤ block.length

theorem octetAt_append (out rest : List UInt8) (b : UInt8) :
    octetAt (out ++ b :: rest) out.length = b.toNat := by
  rw [octetAt, octet, List.getElem?_append_right (Nat.le_refl _), Nat.sub_self]
  rfl

theorem writtenAt {info : MacDlInfo} (h : IsSdu info) (hshort : info.dlPdu.length ≤ 255)
    (out rest : List UInt8) : WrittenAt (out ++ (sduOctets info ++ rest)) out.length info := by
  rw [sduOctets_short h hshort, List.cons_append, List.cons_append]
  constructor
  · rw [octetAt_append, UInt8.toNat_ofNat']
    exact Nat.mod_eq_of_lt (h.lcId_le.trans_lt (by decide))
  · have hat := octetAt_append (out ++ [.ofNat info.lcId]) (info.dlPdu ++ rest)
      (.ofNat info.dlPdu.length)
    rw [List.length_append, List.append_assoc, UInt8.toNat_ofNat'] at hat
    exact hat.trans (Nat.mod_eq_of_lt (Nat.lt_succ_of_le hshort))
  · have hdrop : (out ++ .ofNat info.lcId :: .ofNat info.dlPdu.length ::
        (info.dlPdu ++ rest)).drop (out.length + 2) = info.dlPdu ++ rest := by
      rw [List.drop_append, List.drop_eq_nil_of_le (Nat.le_add_right _ _),
        Nat.add_sub_cancel_left]
      rfl
    rw [hdrop, List.take_left]
  · simp only [List.length_append, List.length_cons]
    omega

theorem WrittenAt.lcId {info : MacDlInfo} (h : IsSdu info) (hwritten : WrittenAt block pos info) :
    lcIdAt block pos = info.lcId := by
  rw [lcIdAt, hwritten.first]
  exact Nat.mod_eq_of_lt (h.lcId_le.trans_lt (by decide))

theorem WrittenAt.flag {info : MacDlInfo} (h : IsSdu info) (hwritten : WrittenAt block pos info) :
    (octetAt block pos).testBit 7 = false := by
  rw [hwritten.first]
  exact Nat.testBit_lt_two_pow (h.lcId_le.trans_lt (by decide))

/-! ## One SDU -/

/-- What the code takes for an SDU whose flag is clear. -/
theorem taken_sdu {idx : ℕ} {info : MacDlInfo} (h : IsSdu info) (hlcId : lcIdAt block idx = info.lcId)
    (hflag : (octetAt block idx).testBit 7 = false) :
    taken block idx = (2, octetAt block ((idx + 1) % 2 ^ 8)) := by
  have hzero : lcIdAt block idx ≠ MAC_LCID_CCCH := hlcId.symm ▸ h.lcId_pos.ne'
  have hmax : lcIdAt block idx ≤ MAC_LCID_MAX := hlcId.symm ▸ h.lcId_le
  simp only [taken]
  rw [if_neg hzero, if_pos hmax, hflag]
  rfl

/-- The round at an SDU that is read alike. -/
theorem ReadAlike.round (hn : block.length < 2 ^ 16) {info : MacDlInfo} (h : IsSdu info)
    (hwritten : WrittenAt block pos info) (halike : ReadAlike block pos info.dlPdu.length) :
    ∃ subPdu, unpackSubPdu (fun _ => true) rnti block (cursorAt block pos) =
      some (.next subPdu (cursorAt block (pos + (2 + info.dlPdu.length)))) ∧
      subPdu.msg = .ulData rnti info.lcId info.dlPdu := by
  have hends := hwritten.ends
  have hlt : pos < block.length := by omega
  have hlcId : lcIdAt block (pos % 2 ^ 8) = info.lcId := halike.lcId.trans (hwritten.lcId h)
  have hlength : octetAt block ((pos % 2 ^ 8 + 1) % 2 ^ 8) = info.dlPdu.length := by
    rw [Nat.mod_add_mod, halike.length, hwritten.length]
  have htaken := taken_sdu h hlcId halike.flag
  rw [hlength] at htaken
  have hin : InBlock block (pos % 2 ^ 8) (2, info.dlPdu.length) := by
    constructor
    · intro i hi
      dsimp only at hi
      omega
    · dsimp only
      omega
  obtain ⟨-, hout⟩ | ⟨-, hmemory⟩ | ⟨-, msg, hnext⟩ :=
    @unpackSubPdu_takes rnti block (cursorAt block pos) (fun _ => true)
      (cursorAt_skip_zero hn hlt.le) (idx_lt hlt) (.inl (hlcId.symm ▸ h.lcId_le))
  · exact absurd (htaken.symm ▸ hin) hout
  · cases hmemory
  · have hidx : (cursorAt block pos).rxPduIdx = pos % 2 ^ 8 := rfl
    rw [hidx, htaken, cursorAt_skip hn hends] at hnext
    refine ⟨_, hnext, ?_⟩
    obtain ⟨-, -, mem, hsdu⟩ | ⟨hother, -⟩ := unpackSubPdu_msg hnext
    · obtain ⟨pdu, hdata, hpdu⟩ := unpackSdu_msg hsdu
      obtain ⟨hset, -⟩ | ⟨-, hcopy⟩ := hpdu
      · cases halike.flag.symm.trans hset
      · rw [hidx, hlength, Nat.mod_add_mod] at hcopy
        have hpayload := (copy_cases hcopy).2
        rw [halike.payload, hwritten.payload] at hpayload
        rw [hdata, ← hpayload, ← hlcId]
        rfl
    · rw [hidx, hlcId] at hother
      obtain hzero | hmax := hother
      · exact absurd hzero h.lcId_pos.ne'
      · exact absurd h.lcId_le hmax

/-- The round that hands an SDU on reads it. -/
theorem ReadAlike.of_round {subPdu : RxSubPdu} {c' : RxCursor} {info : MacDlInfo} (h : IsSdu info)
    (hround : unpackSubPdu (fun _ => true) rnti block (cursorAt block pos) = some (.next subPdu c'))
    (hmsg : subPdu.msg = .ulData rnti info.lcId info.dlPdu) :
    info.dlPdu.length ≤ 255 ∧ taken block (pos % 2 ^ 8) = (2, info.dlPdu.length) ∧
      (WrittenAt block pos info → ReadAlike block pos info.dlPdu.length) := by
  obtain ⟨-, -, mem, hsdu⟩ | ⟨-, hother⟩ := unpackSubPdu_msg hround
  swap
  · exact absurd hmsg (hother _ _ _)
  obtain ⟨pdu, hdata, hpdu⟩ := unpackSdu_msg hsdu
  obtain ⟨-, hlcId, rfl⟩ := UlMsg.ulData.inj (hdata.symm.trans hmsg)
  obtain ⟨-, hnil⟩ | ⟨hflag, hcopy⟩ := hpdu
  · exact absurd hnil (List.ne_nil_of_length_pos h.length_pos)
  have hlength := copy_length hcopy
  simp only [cursorAt, Nat.mod_add_mod] at hflag hcopy hlength hlcId
  have hbyte := octetAt_lt block ((pos + 1) % 2 ^ 8)
  refine ⟨by omega, ?_, fun hwritten => ⟨?_, hflag, ?_, ?_⟩⟩
  · rw [taken_sdu h hlcId hflag, Nat.mod_add_mod, hlength]
  · exact hlcId.trans (hwritten.lcId h).symm
  · exact hlength.symm.trans hwritten.length.symm
  · rw [hwritten.payload, hlength]
    exact (copy_cases hcopy).2

/-! ## All SDUs -/

theorem length_append_sdu {info : MacDlInfo} (h : IsSdu info) (hshort : info.dlPdu.length ≤ 255)
    (out : List UInt8) :
    (out ++ sduOctets info).length = out.length + (2 + info.dlPdu.length) := by
  rw [List.length_append, sduOctets_short h hshort, List.length_cons, List.length_cons]
  omega

theorem ReadBack.run (hn : block.length < 2 ^ 16) : ∀ {infos : List MacDlInfo} {out : List UInt8}
    {left : ℕ}, (∀ info ∈ infos, IsSdu info) →
    block = out ++ (infos.flatMap sduOctets ++ paddingOctets left) →
    ReadBack block out.length infos → ∃ fuel subPdus,
      unpackLoop (fun _ => true) rnti block fuel (cursorAt block out.length) = (.returned, subPdus) ∧
      subPdus.map (·.msg) = infos.map fun info => .ulData rnti info.lcId info.dlPdu
  | [], out, left, _, _, hback => ⟨1, [], hback.unpackLoop, rfl⟩
  | info :: infos, out, left, hinfos, hblock, hback => by
      obtain ⟨hshort, halike, hback⟩ := hback
      have hinfo := hinfos info List.mem_cons_self
      rw [List.flatMap_cons, List.append_assoc] at hblock
      have hwritten : WrittenAt block out.length info := hblock ▸ writtenAt hinfo hshort out _
      obtain ⟨subPdu, hround, hmsg⟩ := @ReadAlike.round rnti block _ hn _ hinfo hwritten halike
      have hleft : (cursorAt block out.length).pduLen ≠ 0 := by
        have hends := hwritten.ends
        exact Nat.sub_ne_zero_of_lt (by omega)
      rw [← length_append_sdu hinfo hshort] at hround hback
      rw [← List.append_assoc] at hblock
      obtain ⟨fuel, subPdus, hrest, hmsgs⟩ := ReadBack.run hn
        (fun info' h => hinfos info' (List.mem_cons_of_mem _ h)) hblock hback
      refine ⟨fuel + 1, subPdu :: subPdus, ?_, ?_⟩
      · rw [unpackLoop, if_neg hleft, hround]
        dsimp only
        rw [hrest]
      · rw [List.map_cons, List.map_cons, hmsg, hmsgs]

theorem ReadBack.of_run (hn : block.length < 2 ^ 16) : ∀ {infos : List MacDlInfo} {out : List UInt8}
    {left fuel : ℕ} {subPdus : List RxSubPdu}, (∀ info ∈ infos, IsSdu info) →
    block = out ++ (infos.flatMap sduOctets ++ paddingOctets left) →
    unpackLoop (fun _ => true) rnti block fuel (cursorAt block out.length) = (.returned, subPdus) →
    subPdus.map (·.msg) = (infos.map fun info => .ulData rnti info.lcId info.dlPdu) →
    ReadBack block out.length infos
  | [], out, left, fuel, subPdus, _, hblock, hrun, hmsgs => by
      have hpos : out.length ≤ block.length := by
        rw [hblock, List.length_append]
        exact Nat.le_add_right _ _
      obtain ⟨hstops, -⟩ | ⟨-, -, -, subPdu, rest, rfl, -⟩ := returned_cases hn hpos hrun
      · exact hstops
      · cases hmsgs
  | info :: infos, out, left, fuel, subPdus, hinfos, hblock, hrun, hmsgs => by
      have hinfo := hinfos info List.mem_cons_self
      have hpos : out.length ≤ block.length := by
        rw [hblock, List.length_append]
        exact Nat.le_add_right _ _
      rw [List.flatMap_cons, List.append_assoc] at hblock
      obtain ⟨-, rfl⟩ | ⟨-, fuel', -, subPdu, rest, rfl, -, hround, hrest⟩ :=
        returned_cases hn hpos hrun
      · cases hmsgs
      obtain ⟨hmsg, hmsgs⟩ := List.cons.inj hmsgs
      obtain ⟨hshort, htaken, halike⟩ := ReadAlike.of_round hinfo hround hmsg
      have hwritten : WrittenAt block out.length info := hblock ▸ writtenAt hinfo hshort out _
      rw [htaken, cursorAt_skip hn hwritten.ends, ← length_append_sdu hinfo hshort] at hrest
      rw [← List.append_assoc] at hblock
      have hback := ReadBack.of_run hn (fun info' h => hinfos info' (List.mem_cons_of_mem _ h))
        hblock hrest hmsgs
      rw [length_append_sdu hinfo hshort] at hback
      exact ⟨hshort, halike hwritten, hback⟩

theorem paddingOctets_length (left : ℕ) : (paddingOctets left).length = left := by
  cases left with
  | zero => rfl
  | succ left => rw [paddingOctets, List.length_cons, List.length_replicate]

section

variable (hdlData : ∀ info ∈ dlData, IsSdu info) (htb : tbSize < 2 ^ 16)
  (hfits : (dlData.flatMap sduOctets).length ≤ tbSize)
include hfits

theorem macMuxPdu_blockOf : macMuxPdu dlData [] tbSize = some (blockOf dlData tbSize) := by
  rw [macMuxPdu_eq]
  exact if_pos hfits

theorem blockOf_length : (blockOf dlData tbSize).length = tbSize := by
  rw [blockOf, List.length_append, paddingOctets_length, Nat.add_sub_cancel' hfits]

include htb in
theorem unpackRxData_blockOf (fuel : ℕ) :
    unpackRxData (fun _ => true) rnti (blockOf dlData tbSize) fuel =
      unpackLoop (fun _ => true) rnti (blockOf dlData tbSize) fuel
        (cursorAt (blockOf dlData tbSize) 0) := by
  rw [unpackRxData, cursorAt, blockOf_length hfits, Nat.mod_eq_of_lt htb]
  rfl

include hdlData htb

theorem RoundTrips.readBack (h : RoundTrips rnti dlData tbSize) :
    ReadBack (blockOf dlData tbSize) 0 dlData := by
  obtain ⟨block, hblock, fuel, subPdus, hrun, hmsgs⟩ := h
  obtain rfl := Option.some.inj ((macMuxPdu_blockOf hfits).symm.trans hblock)
  rw [unpackRxData_blockOf htb hfits] at hrun
  exact @ReadBack.of_run rnti _ ((blockOf_length hfits).trans_lt htb) dlData [] _ _ _ hdlData rfl
    hrun hmsgs

theorem ReadBack.roundTrips (h : ReadBack (blockOf dlData tbSize) 0 dlData) :
    RoundTrips rnti dlData tbSize := by
  obtain ⟨fuel, subPdus, hrun, hmsgs⟩ :=
    @ReadBack.run rnti _ ((blockOf_length hfits).trans_lt htb) dlData [] _ hdlData rfl h
  refine ⟨_, macMuxPdu_blockOf hfits, fuel, subPdus, ?_, hmsgs⟩
  rw [unpackRxData_blockOf htb hfits]
  exact hrun

/-- The demultiplexer hands on the SDUs that the multiplexer packed when they are read back from the
block, and only then. -/
theorem roundTrips_iff :
    RoundTrips rnti dlData tbSize ↔ ReadBack (blockOf dlData tbSize) 0 dlData :=
  ⟨fun h => h.readBack hdlData htb hfits, fun h => h.roundTrips hdlData htb hfits⟩

end

/-! ## Blocks in front of the wrap -/

/-- An SDU that is written in front of the octet where the index wraps is read alike. -/
theorem WrittenAt.readAlike {info : MacDlInfo} (h : IsSdu info) (hwritten : WrittenAt block pos info)
    (hsmall : pos + (2 + info.dlPdu.length) ≤ 2 ^ 8) : ReadAlike block pos info.dlPdu.length := by
  have hpos := h.length_pos
  have hfirst : pos % 2 ^ 8 = pos := Nat.mod_eq_of_lt (by omega)
  constructor
  · rw [hfirst]
  · rw [hfirst]
    exact hwritten.flag h
  · rw [Nat.mod_eq_of_lt (by omega)]
  · rw [Nat.mod_eq_of_lt (by omega)]

/-- A block of at most 256 octets whose SDUs are short is read back. -/
theorem readBack_of_small (hsmall : block.length ≤ 2 ^ 8) : ∀ {infos : List MacDlInfo}
    {out : List UInt8} {left : ℕ}, (∀ info ∈ infos, IsSdu info ∧ info.dlPdu.length ≤ 255) →
    block = out ++ (infos.flatMap sduOctets ++ paddingOctets left) →
    ReadBack block out.length infos
  | [], out, left, _, hblock => by
      rw [List.flatMap_nil, List.nil_append] at hblock
      cases left with
      | zero =>
        refine .inl ?_
        rw [hblock, paddingOctets, List.append_nil]
      | succ left =>
        have hlt : out.length < block.length := by
          rw [hblock, List.length_append, paddingOctets_length]
          exact Nat.lt_add_of_pos_right (Nat.succ_pos left)
        refine .inr ⟨hlt, ?_⟩
        rw [Nat.mod_eq_of_lt (hlt.trans_le hsmall), lcIdAt, hblock, paddingOctets, octetAt_append]
        decide
  | info :: infos, out, left, hinfos, hblock => by
      obtain ⟨hinfo, hshort⟩ := hinfos info List.mem_cons_self
      rw [List.flatMap_cons, List.append_assoc] at hblock
      have hwritten : WrittenAt block out.length info := hblock ▸ writtenAt hinfo hshort out _
      rw [← List.append_assoc] at hblock
      have hback := readBack_of_small hsmall (fun info' h => hinfos info' (List.mem_cons_of_mem _ h))
        hblock
      rw [length_append_sdu hinfo hshort] at hback
      exact ⟨hshort, hwritten.readAlike hinfo (hwritten.ends.trans hsmall), hback⟩

/-- Two SDUs in front of padding. -/
theorem twoSdus_roundTrip : RoundTrips 17
    [⟨4, [7, 8, 9], by decide⟩, ⟨1, List.replicate 100 6, by decide +kernel⟩] 120 := by
  have hsdus : ∀ info ∈ ([⟨4, [7, 8, 9], by decide⟩, ⟨1, List.replicate 100 6, by decide +kernel⟩] :
      List MacDlInfo), IsSdu info ∧ info.dlPdu.length ≤ 255 := by
    simp only [List.forall_mem_cons]
    exact ⟨⟨⟨by decide, by decide, by decide⟩, by decide⟩,
      ⟨⟨by decide, by decide, by decide⟩, by decide⟩, fun _ h => nomatch h⟩
  exact (roundTrips_iff (fun info h => (hsdus info h).1) (by decide) (by decide +kernel)).mpr
    (@readBack_of_small _ (by decide +kernel) _ [] _ hsdus rfl)

/-- An SDU of 256 octets is not read back, and a third SDU behind 304 octets is not. -/
theorem sdus_not_roundTrip :
    ¬RoundTrips 17 [⟨1, List.replicate 256 7, by decide +kernel⟩] 259 ∧
    ¬RoundTrips 17 [⟨1, List.replicate 200 7, by decide +kernel⟩,
      ⟨1, List.replicate 100 9, by decide +kernel⟩, ⟨2, [5], by decide⟩] 307 := by
  constructor
  · intro h
    have hback := h.readBack (by
      simp only [List.forall_mem_cons]
      exact ⟨⟨by decide, by decide, by decide +kernel⟩, fun _ h => nomatch h⟩)
      (by decide) (by decide +kernel)
    exact absurd hback.1 (by decide +kernel)
  · intro h
    have hback := h.readBack (by
      simp only [List.forall_mem_cons]
      exact ⟨⟨by decide, by decide, by decide +kernel⟩, ⟨by decide, by decide, by decide +kernel⟩,
        ⟨by decide, by decide, by decide⟩, fun _ h => nomatch h⟩) (by decide) (by decide +kernel)
    exact absurd hback.2.2.2.2.2.1.lcId (by decide +kernel)

end OaiCu.OduMac
