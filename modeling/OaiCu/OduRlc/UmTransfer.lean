import OaiCu.OduRlc.UmUlCycle
import OaiCu.OduRlc.UmDl

/-!
# From the UM downlink to the UM uplink

The PDUs of the downlink entity are fed to an uplink entity one after the other. As long as no
part of an SDU is on its way, the uplink has no record and its window begins with the SN that
comes next. Else it has one record, with what was sent of the SDU.
-/

namespace OaiCu.OduRlc

variable {snLen : UmSnLen}

/-! ## Headers -/

theorem byte_or {a b n : ℕ} (hb : b < 2 ^ n) (h : a * 2 ^ n + b < 256) :
    (UInt8.ofNat ((a <<< n) ||| b)).toNat = a * 2 ^ n + b := by
  rw [← Nat.shiftLeft_add_eq_or_of_lt hb, Nat.shiftLeft_eq, UInt8.toNat_ofNat']
  exact Nat.mod_eq_of_lt h

theorem toNat_low (x : ℕ) : (UInt8.ofNat (x &&& 0xff)).toNat = x % 256 := by
  rw [show 0xff = 2 ^ 8 - 1 from rfl, Nat.and_two_pow_sub_one_eq_mod, UInt8.toNat_ofNat']
  omega

theorem toNat_high {x : ℕ} (hx : x < 2 ^ 16) : (UInt8.ofNat (x >>> 8)).toNat = x / 256 := by
  rw [Nat.shiftRight_eq_div_pow, UInt8.toNat_ofNat']
  omega

theorem umExtractSo_octets {so : ℕ} (hso : so < 2 ^ 16) (pdu : Octets) :
    umExtractSo ([UInt8.ofNat (so >>> 8), UInt8.ofNat (so &&& 0xff)] ++ pdu) = some (so, pdu) := by
  simp only [List.cons_append, List.nil_append, umExtractSo, toNat_low, toNat_high hso]
  rw [← Nat.shiftLeft_add_eq_or_of_lt (Nat.mod_lt _ (by decide)), Nat.shiftLeft_eq]
  simp only [Option.some.injEq, Prod.mk.injEq, and_true]
  omega

/-- What the header of a segment says of its PDU. -/
def hdrOf (si : Si) (sn : ℕ) (hsn : sn ≤ snLen.modBitMask) (so : ℕ) : RlcUmHdr snLen :=
  ⟨si, sn, if si = .first then 0 else so, hsn, fun h => if_pos h⟩

/-- **The header is read as it was written.** -/
theorem extractHdr_complete (snLen : UmSnLen) (sn so : ℕ) (mBuf : Octets) :
    rlcUmmExtractHdr snLen (umHdrOctets snLen sn none so ++ mBuf) = some (.complete mBuf) := rfl

/-- The octets of the SO, which a first segment does not have. -/
def umSoOctets (si : Si) (so : ℕ) : Octets :=
  if si = .first then [] else [UInt8.ofNat (so >>> 8), UInt8.ofNat (so &&& 0xff)]

theorem extractHdr_of_sn {si : Si} {sn so : ℕ} {hsn : sn ≤ snLen.modBitMask} (hso : so < 2 ^ 16)
    {dst : UInt8} {rest mBuf : Octets} (hsi : dst.toNat >>> 6 = siValue (some si))
    (hrest : umExtractSn snLen dst rest = some (⟨sn, hsn⟩, umSoOctets si so ++ mBuf)) :
    rlcUmmExtractHdr snLen (dst :: rest) =
      some (.segment (hdrOf si sn hsn so) mBuf.length mBuf) := by
  have hso' := umExtractSo_octets hso mBuf
  cases si <;>
    simp only [siValue, RLC_SI_FIRST_SEG, RLC_SI_LAST_SEG, RLC_SI_MID_SEG] at hsi
  · simp only [rlcUmmExtractHdr, hsi, hrest]
    rfl
  · simp only [rlcUmmExtractHdr, hsi, hrest, umSoOctets, reduceCtorEq, if_false, Option.bind_eq_bind,
      Option.bind_some, hso']
    rfl
  · simp only [rlcUmmExtractHdr, hsi, hrest, umSoOctets, reduceCtorEq, if_false, Option.bind_eq_bind,
      Option.bind_some, hso']
    rfl

theorem extractHdr_segment (si : Si) {sn so : ℕ} (hsn : sn ≤ snLen.modBitMask) (hso : so < 2 ^ 16)
    (mBuf : Octets) :
    rlcUmmExtractHdr snLen (umHdrOctets snLen sn (some si) so ++ mBuf) =
      some (.segment (hdrOf si sn hsn so) mBuf.length mBuf) := by
  have hlt : siValue (some si) < 4 := by cases si <;> decide
  cases snLen with
  | bits6 =>
      have hsn' : sn < 2 ^ 6 := Nat.lt_succ_of_le hsn
      have hdst := @byte_or (siValue (some si)) sn 6 hsn' (by omega)
      have hoct : umHdrOctets .bits6 sn (some si) so =
          UInt8.ofNat ((siValue (some si) <<< 6) ||| sn) :: umSoOctets si so := by
        cases si <;> rfl
      rw [hoct, List.cons_append]
      refine extractHdr_of_sn hso ?_ ?_
      · rw [hdst, Nat.shiftRight_eq_div_pow]
        omega
      · refine congrArg some (Prod.ext (Subtype.ext ?_) rfl)
        show (UInt8.ofNat ((siValue (some si) <<< 6) ||| sn)).toNat &&& 0x3F = sn
        rw [hdst, show 0x3F = 2 ^ 6 - 1 from rfl, Nat.and_two_pow_sub_one_eq_mod]
        omega
  | bits12 =>
      have hsn' : sn < 2 ^ 12 := Nat.lt_succ_of_le hsn
      have hhigh : sn >>> 8 < 2 ^ 6 := by
        rw [Nat.shiftRight_eq_div_pow]
        omega
      have hdst := @byte_or (siValue (some si)) (sn >>> 8) 6 hhigh (by omega)
      have hoct : umHdrOctets .bits12 sn (some si) so =
          UInt8.ofNat ((siValue (some si) <<< 6) ||| (sn >>> 8)) :: UInt8.ofNat (sn &&& 0xff) ::
            umSoOctets si so := by
        cases si <;> rfl
      rw [hoct, List.cons_append, List.cons_append]
      refine extractHdr_of_sn hso ?_ ?_
      · rw [hdst, Nat.shiftRight_eq_div_pow]
        omega
      · refine congrArg some (Prod.ext (Subtype.ext ?_) rfl)
        show ((UInt8.ofNat ((siValue (some si) <<< 6) ||| (sn >>> 8))).toNat &&& 0x0F) <<< 8 |||
          (UInt8.ofNat (sn &&& 0xff)).toNat = sn
        rw [hdst, toNat_low, show 0x0F = 2 ^ 4 - 1 from rfl, Nat.and_two_pow_sub_one_eq_mod,
          ← Nat.shiftLeft_add_eq_or_of_lt (Nat.mod_lt _ (by decide)), Nat.shiftLeft_eq]
        rw [Nat.shiftRight_eq_div_pow] at hhigh ⊢
        omega

/-! ## What was received of an SDU -/

/-- The segments of the first octets of an SDU, received one after the other. -/
structure Gathered (recBuf : SegStore Octets) (octets : Octets) : Prop where
  below : ∀ seg ∈ recBuf.segLst, seg.so < octets.length
  last : ∃ seg, recBuf.segLst.getLast? = some seg ∧ seg.so + seg.segSz = octets.length
  length_lt : octets.length < 2 ^ 16
  expSo : recBuf.expSo = octets.length
  allRcvd : recBuf.allRcvd = false
  noMissingSeg : recBuf.noMissingSeg = true
  joined : ∃ sdu : List Octets, sdu.flatten = octets ∧ ∀ rest,
    RlcUmUl.procSegs (recBuf.segLst ++ rest) 0 none =
      RlcUmUl.procSegs rest octets.length (some sdu)

/-- The store with the next segment. -/
def nextStore (recBuf : SegStore Octets) (si : Si) (so : ℕ) (mBuf : Octets) : SegStore Octets where
  segLst := recBuf.segLst ++
    [{ si, so, segSz := mBuf.length, soEnd := so + mBuf.length - 1, seg := mBuf }]
  expSo := so + mBuf.length
  allRcvd := si = .last
  noMissingSeg := true

section

variable {recBuf : SegStore Octets} {octets mBuf : Octets}

theorem stored_eq {si : Si} {so : ℕ} (hpos : 0 < mBuf.length) (hlt : so + mBuf.length < 2 ^ 16) :
    RcvdSeg.stored { si, so, pduSz := mBuf.length, pdu := mBuf } =
      { si, so, segSz := mBuf.length, soEnd := so + mBuf.length - 1, seg := mBuf } := by
  have hend : (so + mBuf.length + 2 ^ 16 - 1) % 2 ^ 16 = so + mBuf.length - 1 := by omega
  rw [RcvdSeg.stored]
  simp only [hend]

theorem addRcvdSeg_start {si : Si} (hpos : 0 < mBuf.length) (hlt : mBuf.length < 2 ^ 16) :
    ({} : SegStore Octets).addRcvdSeg { si, so := 0, pduSz := mBuf.length, pdu := mBuf } =
      (true, nextStore {} si 0 mBuf) := by
  have hend : (0 + mBuf.length - 1 + 1) % 2 ^ 16 = 0 + mBuf.length := by omega
  rw [SegStore.addRcvdSeg, stored_eq hpos (by omega)]
  simp [SegStore.prevEnd, SegStore.passed, SegStore.next, SegStore.updExpByteSeg, scanSegs, nextStore]
  omega

theorem Gathered.addRcvdSeg {si : Si} (h : Gathered recBuf octets) (hpos : 0 < mBuf.length)
    (hlt : octets.length + mBuf.length < 2 ^ 16) :
    recBuf.addRcvdSeg { si, so := octets.length, pduSz := mBuf.length, pdu := mBuf } =
      (true, nextStore recBuf si octets.length mBuf) := by
  obtain ⟨last, hl, hend⟩ := h.last
  have hpassed : recBuf.passed octets.length = recBuf.segLst :=
    List.takeWhile_eq_self_iff.2 fun seg hm => by simpa using h.below seg hm
  have hnext : recBuf.next octets.length = [] :=
    List.dropWhile_eq_nil_iff.2 fun seg hm => by simpa using h.below seg hm
  have hprev : recBuf.prevEnd octets.length = octets.length := by
    rw [SegStore.prevEnd, hpassed, hl, Option.elim, hend]
    exact Nat.mod_eq_of_lt h.length_lt
  have hexp : (octets.length + mBuf.length - 1 + 1) % 2 ^ 16 = octets.length + mBuf.length := by
    omega
  rw [SegStore.addRcvdSeg, stored_eq hpos hlt]
  simp only [h.allRcvd, hprev, hnext, hpassed, lt_irrefl, List.head?_nil, Option.any_none,
    Bool.false_eq_true, if_false, SegStore.updExpByteSeg, h.expSo, ne_eq, not_true_eq_false,
    scanSegs, hexp, nextStore, Bool.false_or]

theorem gathered_first (hpos : 0 < mBuf.length) (hlt : mBuf.length < 2 ^ 16) :
    Gathered (nextStore {} .first 0 mBuf) mBuf where
  below := by simpa [nextStore] using hpos
  last := ⟨_, rfl, Nat.zero_add _⟩
  length_lt := hlt
  expSo := Nat.zero_add _
  allRcvd := rfl
  noMissingSeg := rfl
  joined := by
    have hend : (0 + mBuf.length - 1 + 1) % 2 ^ 16 = mBuf.length := by omega
    refine ⟨[mBuf], by simp, fun rest => ?_⟩
    simp only [nextStore, List.nil_append, List.cons_append, RlcUmUl.procSegs, ne_eq,
      not_true_eq_false, if_false, hend]

theorem Gathered.mid (h : Gathered recBuf octets) (hpos : 0 < mBuf.length)
    (hlt : octets.length + mBuf.length < 2 ^ 16) :
    Gathered (nextStore recBuf .mid octets.length mBuf) (octets ++ mBuf) where
  below := by
    intro seg hm
    rw [List.length_append]
    rw [nextStore, List.mem_append, List.mem_singleton] at hm
    rcases hm with hm | rfl
    · have := h.below seg hm
      omega
    · simp only
      omega
  last := ⟨_, List.getLast?_concat, List.length_append.symm⟩
  length_lt := by rwa [List.length_append]
  expSo := List.length_append.symm
  allRcvd := rfl
  noMissingSeg := rfl
  joined := by
    obtain ⟨sdu, hflat, hproc⟩ := h.joined
    have hend : (octets.length + mBuf.length - 1 + 1) % 2 ^ 16 = (octets ++ mBuf).length := by
      rw [List.length_append]
      omega
    refine ⟨sdu ++ [mBuf], by simp [hflat], fun rest => ?_⟩
    rw [nextStore, List.append_assoc, hproc]
    simp only [List.cons_append, List.nil_append, RlcUmUl.procSegs, ne_eq, not_true_eq_false,
      if_false, hend, Option.map_some]

/-- The SDU that is passed up with the last segment. -/
theorem Gathered.procSegs_last (h : Gathered recBuf octets) (mBuf : Octets) :
    ∃ sdu : List Octets, sdu.flatten = octets ++ mBuf ∧
      RlcUmUl.procSegs (nextStore recBuf .last octets.length mBuf).segLst 0 none =
        (none, [sdu]) := by
  obtain ⟨sdu, hflat, hproc⟩ := h.joined
  refine ⟨sdu ++ [mBuf], by simp [hflat], ?_⟩
  rw [nextStore, hproc]
  simp only [RlcUmUl.procSegs, ne_eq, not_true_eq_false, if_false, Option.getD_some]

end

/-! ## The uplink entity between two PDUs -/

/-- No part of an SDU is on its way. -/
structure Idle (umUl : RlcUmUl snLen Octets) (sn : ℕ) : Prop where
  sn_lt : sn < snLen.modulus
  recBufLst : umUl.recBufLst = fun _ => none
  vrUr : umUl.vrUr = sn
  vrUh : umUl.vrUh = sn
  reAsmblTmr : umUl.reAsmblTmr = false
  assembleSdu : umUl.assembleSdu = none

/-- The first octets of the SDU with the SN have been received. -/
structure Partly (umUl : RlcUmUl snLen Octets) (sn : ℕ) (octets : Octets) : Prop where
  sn_lt : sn < snLen.modulus
  recBufLst : ∃ recBuf : UmRecBuf Octets, Gathered recBuf.toSegStore octets ∧
    umUl.recBufLst = Function.update (fun _ => none) sn (some recBuf)
  vrUr : umUl.vrUr = sn
  vrUh : umUl.vrUh = (sn + 1) &&& snLen.modBitMask
  reAsmblTmr : umUl.reAsmblTmr = false
  assembleSdu : umUl.assembleSdu = none

open RlcUmUl

section

variable {umUl : RlcUmUl snLen Octets} {sn : ℕ} {mBuf : Octets}

theorem updateTmr_of_not_starts (htmr : umUl.reAsmblTmr = false)
    (hstart : umUl.startsTmr sn = false) : umUl.updateTmr sn = umUl := by
  obtain ⟨l, ur, uh, ux, tmr, asm⟩ := umUl
  obtain rfl : tmr = false := htmr
  rw [updateTmr]
  simp only [Bool.false_and, hstart, Bool.and_false, Bool.false_eq_true, if_false]

/-- With the highest SN received at `vrUr` and nothing missing of it, the timer does not start. -/
theorem not_startsTmr_of_noMissing (hUh : umUl.vrUh < snLen.modulus)
    (hnxt : umUl.getValue ((umUl.vrUr + 1) &&& snLen.modBitMask) = snLen.umWinSz)
    (hnone : umUl.noMissingSeg sn = some true) : umUl.startsTmr sn = false := by
  rw [startsTmr]
  simp only [hnxt, getValue_vrUh hUh, hnone]
  simp

/-- Nor does it if nothing was received from `vrUr` on. -/
theorem not_startsTmr_of_eq (hUh : umUl.vrUh < snLen.modulus) (heq : umUl.vrUr = umUl.vrUh) :
    umUl.startsTmr sn = false := by
  have hvrUh := getValue_vrUh hUh
  have hw := snLen.umWinSz_cases
  have hnxt : umUl.getValue ((umUl.vrUr + 1) &&& snLen.modBitMask) = snLen.umWinSz + 1 := by
    rw [heq, getValue_next hUh hUh (by omega), hvrUh]
  rw [startsTmr]
  simp only [hnxt, hvrUh]
  simp

/-- A PDU with a whole SDU changes nothing. -/
theorem step_complete (umUl : RlcUmUl snLen Octets) (mBuf : Octets) :
    UmUlOp.step umUl (.pdu (.complete mBuf)) = some (umUl, [[mBuf]]) := rfl

/-- A segment that is taken, and after which the timer is as before. -/
theorem step_segment {umHdr : RlcUmHdr snLen}
    (hge : umUl.getValue umUl.vrUr ≤ umUl.getValue umHdr.sn) {recBufLst : RecBufLst (UmRecBuf Octets)}
    (hadd : rlcUmmAddRcvdSeg umHdr.sn (umHdr.seg mBuf.length mBuf) umUl.recBufLst =
      (true, recBufLst)) {umUl' : RlcUmUl snLen Octets} {s : UmScan snLen Octets}
    {sdus : List (List Octets)}
    (hstored : ({ umUl with recBufLst := recBufLst } : RlcUmUl snLen Octets).segStored umHdr.sn
      (umUl.getValue umUl.vrUr) (umUl.getValue umHdr.sn) = (s, sdus))
    (hscan : runScan s = some umUl') (htmr : umUl'.updateTmr umHdr.sn = umUl') :
    UmUlOp.step umUl (.pdu (.segment umHdr mBuf.length mBuf)) = some (umUl', sdus) := by
  rw [UmUlOp.step, UmUlOp.untilScan]
  simp only [not_lt.2 hge, if_false, hadd, hstored, hscan, Option.map_some, htmr]

theorem rlcUmmAddRcvdSeg_of_store {seg : RcvdSeg Octets} {recBufLst : RecBufLst (UmRecBuf Octets)}
    {recBuf recBuf' : SegStore Octets} (hstore : umStore sn recBufLst = recBuf)
    (hadd : recBuf.addRcvdSeg seg = (true, recBuf')) :
    ∃ r : UmRecBuf Octets, r.toSegStore = recBuf' ∧
      rlcUmmAddRcvdSeg sn seg recBufLst = (true, Function.update recBufLst sn (some r)) := by
  rcases rlcUmmAddRcvdSeg_cases sn seg recBufLst with ⟨hall, -⟩ | he
  · have hall' : recBuf.allRcvd = true := by
      rw [← hstore, umStore]
      cases hr : recBufLst sn with
      | none => simp [hr] at hall
      | some r => simpa [hr] using hall
    rw [addRcvdSeg_of_allRcvd hall'] at hadd
    cases hadd
  · rw [he, hstore, hadd]
    exact ⟨_, rfl, rfl⟩

/-- The lower of the two SNs in the window. -/
theorem getValue_of_next (hUh : umUl.vrUh = (sn + 1) &&& snLen.modBitMask)
    (hsn : sn < snLen.modulus) : umUl.getValue sn + 1 = snLen.umWinSz := by
  have hw := snLen.umWinSz_cases
  have hlt : umUl.vrUh < snLen.modulus := hUh ▸ next_lt snLen _
  have hnext := getValue_vrUh hlt
  rw [hUh, getValue_mod hlt (by omega)] at hnext
  rw [getValue_eq hlt (by omega)] at hnext ⊢
  rcases hw with ⟨h1, h2⟩ | ⟨h1, h2⟩ <;> simp only [h1, h2] at hsn hlt hnext ⊢ <;> omega

theorem segStored_of_incomplete {recBuf : UmRecBuf Octets} {ur seqNum : ℕ}
    (hrec : umUl.recBufLst sn = some recBuf) (hall : recBuf.allRcvd = false) :
    umUl.segStored sn ur seqNum = if umUl.getValue sn < umUl.getValue umUl.vrUh then
      ((umUl, none), []) else (umUl.moveVrUh sn, []) := by
  rw [segStored, hrec]
  simp only [hall, Bool.false_eq_true, if_false, rlcUmmCheckSnInReassemblyWindow,
    decide_eq_true_eq]

theorem segStored_of_complete {recBuf : UmRecBuf Octets} {ur seqNum : ℕ}
    (hrec : umUl.recBufLst sn = some recBuf) (hall : recBuf.allRcvd = true) :
    umUl.segStored sn ur seqNum =
      (if seqNum = ur then (umUl.rlcUmmReAssembleSdus sn recBuf).1.scanNext
      else ((umUl.rlcUmmReAssembleSdus sn recBuf).1, none),
        (umUl.rlcUmmReAssembleSdus sn recBuf).2) := by
  rw [segStored, hrec]
  simp only [hall, if_true]

theorem noMissingSeg_of_gathered {recBuf : UmRecBuf Octets} {octets : Octets}
    (hrec : umUl.recBufLst sn = some recBuf) (h : Gathered recBuf.toSegStore octets) :
    umUl.noMissingSeg sn = some true := by
  rw [noMissingSeg, hrec, Option.map_some, h.noMissingSeg]

/-- The first segment of an SDU. -/
theorem Idle.first (h : Idle umUl sn) (hpos : 0 < mBuf.length) (hlt : mBuf.length < 2 ^ 16)
    (hsn : sn ≤ snLen.modBitMask) (so : ℕ) :
    ∃ umUl', UmUlOp.step umUl (.pdu (.segment (hdrOf .first sn hsn so) mBuf.length mBuf)) =
      some (umUl', []) ∧ Partly umUl' sn mBuf := by
  have hUh : umUl.vrUh < snLen.modulus := h.vrUh ▸ h.sn_lt
  have hval : umUl.getValue sn = umUl.getValue umUl.vrUh := by rw [h.vrUh]
  have hw := snLen.umWinSz_cases
  obtain ⟨r, hr, hadd⟩ := @rlcUmmAddRcvdSeg_of_store sn
    ((hdrOf .first sn hsn so).seg mBuf.length mBuf) umUl.recBufLst {} _
    (by rw [h.recBufLst]; rfl) (addRcvdSeg_start hpos hlt)
  obtain ⟨umUl', he⟩ : ∃ umUl' : RlcUmUl snLen Octets, umUl' = { umUl with
    recBufLst := Function.update umUl.recBufLst sn (some r)
    vrUh := (sn + 1) &&& snLen.modBitMask } := ⟨_, rfl⟩
  have hUh' : umUl'.vrUh = (sn + 1) &&& snLen.modBitMask := by rw [he]
  have hvrUr' : umUl'.vrUr = sn := by rw [he]; exact h.vrUr
  have hUhlt' : umUl'.vrUh < snLen.modulus := hUh' ▸ next_lt snLen _
  have hg : Gathered r.toSegStore mBuf := hr ▸ gathered_first hpos hlt
  have hrec' : umUl'.recBufLst sn = some r := by rw [he]; exact Function.update_self _ _ _
  have hsn' := getValue_of_next hUh' h.sn_lt
  have hstored : ({ umUl with recBufLst := Function.update umUl.recBufLst sn (some r) } :
      RlcUmUl snLen Octets).segStored sn (umUl.getValue umUl.vrUr) (umUl.getValue sn) =
      ((umUl', none), []) := by
    rw [segStored_of_incomplete (Function.update_self _ _ _) hg.allRcvd, if_neg ?_,
      RlcUmUl.moveVrUh]
    · simp only [← he]
      rw [if_pos]
      rw [rlcUmmCheckSnInReassemblyWindow, h.vrUr, getValue_vrUh hUhlt', decide_eq_true_eq]
      omega
    · exact hval.not_lt
  refine ⟨umUl', step_segment (by rw [h.vrUr]; exact le_rfl) hadd hstored rfl ?_, h.sn_lt,
    ⟨r, hg, by rw [he, h.recBufLst]⟩, hvrUr', hUh', by rw [he]; exact h.reAsmblTmr,
    by rw [he]; exact h.assembleSdu⟩
  refine updateTmr_of_not_starts (by rw [he]; exact h.reAsmblTmr)
    (not_startsTmr_of_noMissing hUhlt' ?_ (noMissingSeg_of_gathered hrec' hg))
  rw [hvrUr', ← hUh', getValue_vrUh hUhlt']

/-- A segment from the middle. -/
theorem Partly.mid {octets : Octets} (h : Partly umUl sn octets) (hpos : 0 < mBuf.length)
    (hlt : octets.length + mBuf.length < 2 ^ 16) (hsn : sn ≤ snLen.modBitMask) :
    ∃ umUl', UmUlOp.step umUl (.pdu (.segment (hdrOf .mid sn hsn octets.length) mBuf.length mBuf)) =
      some (umUl', []) ∧ Partly umUl' sn (octets ++ mBuf) := by
  have hUh : umUl.vrUh < snLen.modulus := h.vrUh ▸ next_lt snLen _
  obtain ⟨r, hg, hrec⟩ := h.recBufLst
  obtain ⟨r', hr, hadd⟩ := @rlcUmmAddRcvdSeg_of_store sn
    ((hdrOf .mid sn hsn octets.length).seg mBuf.length mBuf) umUl.recBufLst r.toSegStore _
    (by rw [hrec, umStore, Function.update_self]; rfl) (hg.addRcvdSeg hpos hlt)
  have hg' : Gathered r'.toSegStore (octets ++ mBuf) := hr ▸ hg.mid hpos hlt
  obtain ⟨umUl', he⟩ : ∃ umUl' : RlcUmUl snLen Octets, umUl' = { umUl with
    recBufLst := Function.update umUl.recBufLst sn (some r') } := ⟨_, rfl⟩
  have hUh' : umUl'.vrUh = (sn + 1) &&& snLen.modBitMask := by rw [he]; exact h.vrUh
  have hUhlt' : umUl'.vrUh < snLen.modulus := hUh' ▸ next_lt snLen _
  have hvrUr' : umUl'.vrUr = sn := by rw [he]; exact h.vrUr
  have hrec' : umUl'.recBufLst sn = some r' := by rw [he]; exact Function.update_self _ _ _
  have hsn' := getValue_of_next hUh' h.sn_lt
  have hstored : umUl'.segStored sn (umUl.getValue umUl.vrUr) (umUl.getValue sn) =
      ((umUl', none), []) := by
    rw [segStored_of_incomplete hrec' hg'.allRcvd, getValue_vrUh hUhlt', if_pos (by omega)]
  refine ⟨umUl',
    step_segment (by rw [h.vrUr]; exact le_rfl) hadd (by rw [← he]; exact hstored) rfl ?_, h.sn_lt,
    ⟨r', hg', by rw [he, hrec, Function.update_idem]⟩, hvrUr', hUh',
    by rw [he]; exact h.reAsmblTmr, by rw [he]; exact h.assembleSdu⟩
  refine updateTmr_of_not_starts (by rw [he]; exact h.reAsmblTmr)
    (not_startsTmr_of_noMissing hUhlt' ?_ (noMissingSeg_of_gathered hrec' hg'))
  rw [hvrUr', ← hUh', getValue_vrUh hUhlt']

/-- The last segment: the SDU is passed up. -/
theorem Partly.last {octets : Octets} (h : Partly umUl sn octets) (hpos : 0 < mBuf.length)
    (hlt : octets.length + mBuf.length < 2 ^ 16) (hsn : sn ≤ snLen.modBitMask) :
    ∃ umUl' sdu, UmUlOp.step umUl
        (.pdu (.segment (hdrOf .last sn hsn octets.length) mBuf.length mBuf)) =
      some (umUl', [sdu]) ∧ sdu.flatten = octets ++ mBuf ∧
        Idle umUl' ((sn + 1) &&& snLen.modBitMask) := by
  have hUh : umUl.vrUh < snLen.modulus := h.vrUh ▸ next_lt snLen _
  have hw := snLen.umWinSz_cases
  obtain ⟨r, hg, hrec⟩ := h.recBufLst
  obtain ⟨r', hr, hadd⟩ := @rlcUmmAddRcvdSeg_of_store sn
    ((hdrOf .last sn hsn octets.length).seg mBuf.length mBuf) umUl.recBufLst r.toSegStore _
    (by rw [hrec, umStore, Function.update_self]; rfl) (hg.addRcvdSeg hpos hlt)
  obtain ⟨sdu, hflat, hproc⟩ := hg.procSegs_last mBuf
  have hproc' : procSegs r'.segLst 0 none = (none, [sdu]) := hr ▸ hproc
  have hall : r'.allRcvd = true := by rw [hr]; rfl
  obtain ⟨r'', hr''⟩ : ∃ r'' : UmRecBuf Octets, r'' = { r' with segLst := [] } := ⟨_, rfl⟩
  obtain ⟨umUl', he⟩ : ∃ umUl' : RlcUmUl snLen Octets, umUl' = { umUl with
    recBufLst := Function.update umUl.recBufLst sn (some r'') } := ⟨_, rfl⟩
  have hUh' : umUl'.vrUh = (sn + 1) &&& snLen.modBitMask := by rw [he]; exact h.vrUh
  have hvrUr' : umUl'.vrUr = sn := by rw [he]; exact h.vrUr
  have hUhlt' : umUl'.vrUh < snLen.modulus := hUh' ▸ next_lt snLen _
  have hrec' : umUl'.recBufLst = Function.update (fun _ => none) sn (some r'') := by
    rw [he, hrec, Function.update_idem]
  have hsn' := getValue_of_next hUh' h.sn_lt
  have hne : (sn + 1) &&& snLen.modBitMask ≠ sn := fun hc => by
    have := getValue_vrUh hUhlt'
    rw [hUh', hc] at this
    omega
  have hstored : ({ umUl with recBufLst := Function.update umUl.recBufLst sn (some r') } :
      RlcUmUl snLen Octets).segStored sn (umUl.getValue umUl.vrUr) (umUl.getValue sn) =
      (umUl'.scanNext, [sdu]) := by
    have hasm : rlcUmmReAssembleSdus sn r' ({ umUl with
        recBufLst := Function.update umUl.recBufLst sn (some r') } : RlcUmUl snLen Octets) =
        (umUl', [sdu]) := by
      rw [rlcUmmReAssembleSdus]
      simp only [Function.update_idem, h.assembleSdu, hproc']
      rw [he, hr'', ← h.assembleSdu]
    rw [segStored_of_complete (Function.update_self _ _ _) hall, hasm, h.vrUr, if_pos rfl]
  -- the scan stops at the next SN
  have hnext := getValue_next hUhlt' h.sn_lt (by omega)
  have hmiss : umUl'.allSegRcvd ((sn + 1) &&& snLen.modBitMask) = false := by
    rw [allSegRcvd, hrec', Function.update_of_ne hne]
    rfl
  have hscan : runScan umUl'.scanNext = some (umUl'.scanned ((sn + 1) &&& snLen.modBitMask)
      ((sn + 1) &&& snLen.modBitMask) (umUl'.findRecBuf umUl'.vrUr)) := by
    rw [RlcUmUl.scanNext, runScan, hvrUr', ← hvrUr']
    refine rlcUmmFindRxNextReassembly_eq hUhlt' (by rw [hvrUr']; exact h.sn_lt) (next_lt snLen _)
      (by rw [hvrUr', hnext]; omega) (fun x hx => ?_) ?_
    · rw [hrec', Function.update_apply] at hx
      split_ifs at hx with hxsn
      · rw [hxsn]
        exact h.sn_lt
      · exact absurd rfl hx
    · rw [hvrUr']
      exact ⟨next_lt snLen _, le_rfl, hmiss, fun x _ h1 h2 => absurd h2 (not_lt.2 h1)⟩
  refine ⟨_, sdu, step_segment (by rw [h.vrUr]; exact le_rfl) hadd hstored hscan ?_, hflat,
    next_lt snLen _, ?_, rfl, hUh', by rw [scanned, he]; exact h.reAsmblTmr,
    by rw [scanned, he]; exact h.assembleSdu⟩
  · refine updateTmr_of_not_starts (by rw [scanned, he]; exact h.reAsmblTmr)
      (not_startsTmr_of_eq hUhlt' ?_)
    exact hUh'.symm
  · funext x
    simp only [scanned]
    split_ifs with hp
    · rfl
    · rw [hrec', Function.update_apply]
      split_ifs with hxsn
      · refine absurd (.inl ?_) hp
        rw [findRecBuf_eq_some, hvrUr', hrec', Function.update_self]
        exact ⟨hxsn, rfl⟩
      · rfl

end

end OaiCu.OduRlc
