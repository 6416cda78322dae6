import OaiCu.OduRlc.UmUlScan

/-!
# The window of the UM uplink

The records of the entity are those of SNs from `vrUr` on, and a record that is not complete lies
below `vrUh`. Every step keeps this, unless a PDU completes a record beyond the window, or the
scan after the expiry of the timer leaves a record behind.
-/

namespace OaiCu.OduRlc

namespace RlcUmUl

variable {snLen : UmSnLen} {α : Type*} {umUl umUl' : RlcUmUl snLen α}

/-- A record may be kept: that of an SN from `vrUr` up to `vrUh`, or up to a window behind `vrUr`
if it is complete. -/
def MayKeep (umUl : RlcUmUl snLen α) (sn : ℕ) (allRcvd : Bool) : Prop :=
  sn ≤ snLen.modBitMask ∧ umUl.getValue umUl.vrUr ≤ umUl.getValue sn ∧
    (umUl.getValue sn < umUl.getValue umUl.vrUh ∨
      allRcvd = true ∧ umUl.getValue sn ≤ umUl.getValue umUl.vrUr + snLen.umWinSz)

/-- The state variables are SNs, and the records are those that may be kept. -/
structure WindowOk (umUl : RlcUmUl snLen α) : Prop where
  vrUr_le : umUl.vrUr ≤ snLen.modBitMask
  vrUh_le : umUl.vrUh ≤ snLen.modBitMask
  vrUx_le : umUl.vrUx ≤ snLen.modBitMask
  recBuf : ∀ sn recBuf, umUl.recBufLst sn = some recBuf → umUl.MayKeep sn recBuf.allRcvd

/-- `vrUr` has come to the first SN from `nextSn` on, and not behind the old `vrUr`, that is not
fully received. -/
structure ScanRight (umUl : RlcUmUl snLen α) (nextSn : ℕ) (vrUr' : ℕ) : Prop where
  le : umUl.getValue nextSn ≤ umUl.getValue vrUr'
  ge : umUl.getValue umUl.vrUr ≤ umUl.getValue vrUr'
  missing : umUl.allSegRcvd vrUr' = false
  received : ∀ x ≤ snLen.modBitMask, umUl.getValue nextSn ≤ umUl.getValue x →
    umUl.getValue umUl.vrUr ≤ umUl.getValue x → umUl.getValue x < umUl.getValue vrUr' →
    umUl.allSegRcvd x = true

theorem le_modBitMask_iff {x : ℕ} : x ≤ snLen.modBitMask ↔ x < snLen.modulus := by
  have := snLen.modBitMask_succ
  omega

theorem WindowOk.vrUr_lt (h : umUl.WindowOk) : umUl.vrUr < snLen.modulus :=
  le_modBitMask_iff.1 h.vrUr_le

theorem WindowOk.vrUh_lt (h : umUl.WindowOk) : umUl.vrUh < snLen.modulus :=
  le_modBitMask_iff.1 h.vrUh_le

theorem WindowOk.vrUx_lt (h : umUl.WindowOk) : umUl.vrUx < snLen.modulus :=
  le_modBitMask_iff.1 h.vrUx_le

theorem WindowOk.lt_of_ne_none (h : umUl.WindowOk) {sn : ℕ} (hrec : umUl.recBufLst sn ≠ none) :
    sn < snLen.modulus := by
  obtain ⟨recBuf, hr⟩ := Option.ne_none_iff_exists'.1 hrec
  exact le_modBitMask_iff.1 (h.recBuf sn recBuf hr).1

/-- With `vrUr` moved up the records above it may be kept. -/
theorem MayKeep.of_le {sn vrUr : ℕ} {allRcvd : Bool} (h : umUl.MayKeep sn allRcvd)
    (hle : umUl.getValue umUl.vrUr ≤ umUl.getValue vrUr)
    (hge : umUl.getValue vrUr ≤ umUl.getValue sn) (he : umUl'.vrUh = umUl.vrUh)
    (hv : umUl'.vrUr = vrUr) : umUl'.MayKeep sn allRcvd := by
  have hget : ∀ x, umUl'.getValue x = umUl.getValue x := fun x => by rw [getValue, getValue, he]
  refine ⟨h.1, by rwa [hget, hget, hv], ?_⟩
  rw [hget, hget, hget, he, hv]
  exact h.2.2.imp_right fun hc => ⟨hc.1, by omega⟩

/-- What the scan gives, if there is one. -/
structure Scanned (s : UmScan snLen α) (umUl' : RlcUmUl snLen α) : Prop where
  window : umUl'.WindowOk
  missing : umUl'.allSegRcvd umUl'.vrUr = false
  right : ∀ nextSn, s.2 = some nextSn → s.1.ScanRight nextSn umUl'.vrUr
  recBufLst : ∀ sn recBuf, umUl'.recBufLst sn = some recBuf → s.1.recBufLst sn = some recBuf
  frame : umUl' = { s.1 with
    vrUr := umUl'.vrUr
    recBufLst := umUl'.recBufLst }

theorem WindowOk.noScan (h : umUl.WindowOk) (hmiss : umUl.allSegRcvd umUl.vrUr = false) :
    ∃ umUl', runScan (umUl, none) = some umUl' ∧ Scanned (umUl, none) umUl' :=
  ⟨umUl, rfl, h, hmiss, (fun _ hc => by cases hc), fun _ _ => id, rfl⟩

theorem WindowOk.scan (h : umUl.WindowOk) {nextSn : ℕ} (hnext : nextSn < snLen.modulus)
    (hend : ∃ y < snLen.modulus, umUl.getValue nextSn ≤ umUl.getValue y ∧
      umUl.getValue umUl.vrUr ≤ umUl.getValue y ∧ umUl.allSegRcvd y = false)
    (hmiss : umUl.getValue nextSn ≤ umUl.getValue umUl.vrUr → umUl.allSegRcvd umUl.vrUr = false)
    (hleave : ¬ umUl.LeavesBehind nextSn) :
    ∃ umUl', runScan (umUl, some nextSn) = some umUl' ∧ Scanned (umUl, some nextSn) umUl' := by
  rcases Nat.lt_or_ge (umUl.getValue umUl.vrUr) (umUl.getValue nextSn) with hlt | hge
  · obtain ⟨y, hy, h1, -, hm⟩ := hend
    obtain ⟨first, hfirst⟩ := exists_firstFrom hy h1 hm
    have hle := hfirst.le
    have hget : ∀ x, (umUl.scanned nextSn first (umUl.findRecBuf umUl.vrUr)).getValue x =
      umUl.getValue x := fun _ => rfl
    refine ⟨_, rlcUmmFindRxNextReassembly_eq h.vrUh_lt h.vrUr_lt hnext hlt
      (fun x => h.lt_of_ne_none) hfirst, ?_, ?_, ?_, ?_, rfl⟩
    · refine ⟨le_modBitMask_iff.2 hfirst.lt, h.vrUh_le, h.vrUx_le, fun sn recBuf hr => ?_⟩
      simp only [scanned] at hr
      split_ifs at hr with hp
      have hk := h.recBuf sn recBuf hr
      have hrec : umUl.recBufLst sn ≠ none := by simp [hr]
      rw [passed_iff h.vrUh_lt h.vrUr_lt hlt hfirst hleave (h.lt_of_ne_none hrec) hrec hk.2.1,
        not_lt] at hp
      exact hk.of_le (by omega) hp rfl rfl
    · rw [allSegRcvd]
      simp only [scanned]
      split_ifs
      · rfl
      · exact hfirst.missing
    · rintro _ ⟨⟩
      exact ⟨hfirst.le, hlt.le.trans hfirst.le, hfirst.missing,
        fun x hx h1 _ h3 => hfirst.received x (le_modBitMask_iff.1 hx) h1 h3⟩
    · intro sn recBuf hr
      simp only [scanned] at hr
      split_ifs at hr
      exact hr
  · refine ⟨umUl, rlcUmmFindRxNextReassembly_of_le hge, h, hmiss hge, ?_, fun _ _ => id, rfl⟩
    rintro _ ⟨⟩
    exact ⟨hge, le_rfl, hmiss hge, fun x _ _ h2 h3 => absurd h3 (not_lt.2 h2)⟩

/-- A scan from the SN behind `vrUr` leaves nothing behind. -/
theorem WindowOk.scanNext (h : umUl.WindowOk) (hend : ∃ y < snLen.modulus,
      umUl.getValue umUl.vrUr < umUl.getValue y ∧ umUl.allSegRcvd y = false) :
    ∃ umUl', runScan umUl.scanNext = some umUl' ∧ Scanned umUl.scanNext umUl' := by
  obtain ⟨y, hy, hlt, hm⟩ := hend
  have hval := umUl.getValue_lt y
  have hnext := getValue_next h.vrUh_lt h.vrUr_lt (by omega)
  refine h.scan (next_lt snLen _) ⟨y, hy, by omega, hlt.le, hm⟩ (fun hc => by omega) ?_
  rintro ⟨sn, -, -, h1, h2⟩
  omega

/-! ## The window moves -/

theorem discardRecBufs_eq : ∀ (packetCount : ℕ) {umUl : RlcUmUl snLen α} {sn : ℕ},
    umUl.vrUh < snLen.modulus → sn < snLen.modulus → umUl.getValue sn + packetCount ≤ snLen.modulus →
    discardRecBufs packetCount sn umUl = { umUl with
      recBufLst := fun x =>
        if x < snLen.modulus ∧ umUl.getValue sn ≤ umUl.getValue x ∧
          umUl.getValue x < umUl.getValue sn + packetCount then none else umUl.recBufLst x }
  | 0, umUl, sn, _, _, _ => by
    have hnone : (fun x => if x < snLen.modulus ∧ umUl.getValue sn ≤ umUl.getValue x ∧
        umUl.getValue x < umUl.getValue sn + 0 then none else umUl.recBufLst x) =
        umUl.recBufLst := by
      funext x
      rw [if_neg (by omega)]
    rw [discardRecBufs, hnone]
  | packetCount + 1, umUl, sn, hUh, hsn, hle => by
    have hget : ∀ l : RecBufLst (UmRecBuf α), ({ umUl with recBufLst := l } :
        RlcUmUl snLen α).getValue = umUl.getValue := fun _ => rfl
    have hnext : packetCount = 0 ∨
        umUl.getValue ((sn + 1) &&& snLen.modBitMask) = umUl.getValue sn + 1 := by
      rcases Nat.eq_zero_or_pos packetCount with h0 | h0
      · exact .inl h0
      · exact .inr (getValue_next hUh hsn (by omega))
    have hlt := umUl.getValue_lt ((sn + 1) &&& snLen.modBitMask)
    rw [discardRecBufs, delRecBuf_eq, discardRecBufs_eq packetCount (by exact hUh)
      (next_lt snLen _) (by rw [hget]; omega)]
    simp only [hget]
    congr 1
    funext x
    by_cases hnone : umUl.recBufLst x = none
    · simp only [hnone, ite_self]
    · have hsame : x < snLen.modulus → umUl.getValue x = umUl.getValue sn → x = sn :=
        fun hx h => getValue_inj hUh hx hsn h
      simp only [findRecBuf_eq_some_iff hnone]
      rw [← ite_or]
      refine if_congr ⟨?_, ?_⟩ rfl rfl
      · rintro (h | rfl)
        · omega
        · omega
      · rintro ⟨h1, h2, h3⟩
        by_cases heq : umUl.getValue x = umUl.getValue sn
        · exact .inr (hsame h1 heq)
        · exact .inl ⟨h1, by omega⟩

/-- With `vrUh` behind `sn` every SN comes closer to the lower edge, and those below it are at
the upper end. -/
theorem getValue_move (hUh : umUl.vrUh < snLen.modulus) {sn x : ℕ} (hsn : sn < snLen.modulus)
    (hout : snLen.umWinSz ≤ umUl.getValue sn) (hx : x < snLen.modulus)
    (he : umUl'.vrUh = (sn + 1) &&& snLen.modBitMask) :
    umUl'.getValue x + (umUl.getValue sn + 1) = umUl.getValue x + snLen.umWinSz +
      if umUl.getValue sn + 1 ≤ umUl.getValue x + snLen.umWinSz then 0 else snLen.modulus := by
  have hw := snLen.umWinSz_cases
  have hUh' : umUl'.vrUh < snLen.modulus := he ▸ next_lt snLen _
  rw [getValue_eq hUh (by omega)] at hout
  rw [getValue_eq hUh' (by omega), getValue_eq hUh (by omega), getValue_eq hUh (by omega)]
  rw [he, UmSnLen.and_modBitMask] at hUh' ⊢
  rcases hw with ⟨h1, h2⟩ | ⟨h1, h2⟩ <;> simp only [h1, h2] at hUh hUh' hsn hout hx ⊢ <;>
    split_ifs <;> omega

/-- The lower edge of the window. -/
theorem getValue_lowerEdge (hUh : umUl.vrUh < snLen.modulus) :
    umUl.getValue (sub32 umUl.vrUh snLen.umWinSz &&& snLen.modBitMask) = 0 := by
  have hw := snLen.umWinSz_cases
  have hlt := next_lt snLen (sub32 umUl.vrUh snLen.umWinSz)
  rw [getValue_eq hUh (by omega)]
  rw [UmSnLen.and_modBitMask, sub32]
  rcases hw with ⟨h1, h2⟩ | ⟨h1, h2⟩ <;> simp only [h1, h2] at hUh ⊢ <;> omega

/-- As many records are dropped as there are SNs from `vrUr` up to the lower edge. -/
theorem packetCount_eq (hUh : umUl.vrUh < snLen.modulus) {sn : ℕ} (hsn : sn < snLen.modulus)
    (hout : snLen.umWinSz ≤ umUl.getValue sn) :
    umUl.getValue sn + (sub32 (sub32 umUl.vrUh snLen.umWinSz &&& snLen.modBitMask) sn &&&
      snLen.modBitMask) = snLen.modulus := by
  have hw := snLen.umWinSz_cases
  rw [getValue_eq hUh (by omega)] at hout ⊢
  rw [UmSnLen.and_modBitMask, UmSnLen.and_modBitMask, sub32, sub32]
  rcases hw with ⟨h1, h2⟩ | ⟨h1, h2⟩ <;> simp only [h1, h2] at hUh hsn hout ⊢ <;> omega

/-- The entity when the records below the lower edge are gone. -/
theorem discardRecBufs_lowerEdge (hUh : umUl.vrUh < snLen.modulus) {sn : ℕ}
    (hsn : sn < snLen.modulus) (hout : snLen.umWinSz ≤ umUl.getValue sn) {packetCount : ℕ}
    (hcount : packetCount = (sub32 (sub32 umUl.vrUh snLen.umWinSz &&& snLen.modBitMask) sn &&&
      snLen.modBitMask)) (x : ℕ) :
    (discardRecBufs packetCount sn umUl).recBufLst x =
      if x < snLen.modulus ∧ umUl.getValue sn ≤ umUl.getValue x then none
      else umUl.recBufLst x := by
  have hsum := packetCount_eq hUh hsn hout
  rw [← hcount] at hsum
  have hlt := umUl.getValue_lt x
  rw [discardRecBufs_eq packetCount hUh hsn hsum.le, hsum]
  simp only [hlt, and_true]

theorem discardRecBufs_sub : ∀ (packetCount sn : ℕ) (umUl : RlcUmUl snLen α),
    ∃ l, discardRecBufs packetCount sn umUl = { umUl with recBufLst := l } ∧
      ∀ x recBuf, l x = some recBuf → umUl.recBufLst x = some recBuf
  | 0, _, umUl => ⟨umUl.recBufLst, rfl, fun _ _ => id⟩
  | packetCount + 1, sn, umUl => by
    obtain ⟨l, he, hl⟩ := discardRecBufs_sub packetCount ((sn + 1) &&& snLen.modBitMask)
      (umUl.delRecBuf (umUl.findRecBuf sn))
    rw [discardRecBufs, he]
    rw [delRecBuf_eq] at hl ⊢
    refine ⟨l, rfl, fun x recBuf hr => ?_⟩
    have hx := hl x recBuf hr
    simp only at hx
    split_ifs at hx
    exact hx

/-- The records below the lower edge go, and `vrUr` is the first one from there that is not
fully received. -/
theorem discardBelow_scan (hUh : umUl.vrUh < snLen.modulus) (hUr : umUl.vrUr < snLen.modulus)
    (hUx : umUl.vrUx < snLen.modulus) (hout : snLen.umWinSz ≤ umUl.getValue umUl.vrUr)
    (hkeep : ∀ x recBuf, umUl.recBufLst x = some recBuf → x < snLen.modulus ∧
      (umUl.getValue umUl.vrUr ≤ umUl.getValue x ∨ umUl.getValue x < snLen.umWinSz))
    (hmiss : ∃ y < snLen.modulus, 0 < umUl.getValue y ∧
      umUl.getValue y < umUl.getValue umUl.vrUr ∧ umUl.allSegRcvd y = false) :
    ∃ umUl', runScan umUl.discardBelow = some umUl' ∧ Scanned umUl.discardBelow umUl' := by
  obtain ⟨lowerEdge, hlow⟩ : ∃ lowerEdge, lowerEdge =
    (sub32 umUl.vrUh snLen.umWinSz &&& snLen.modBitMask) := ⟨_, rfl⟩
  obtain ⟨umUl₃, he⟩ : ∃ umUl₃ : RlcUmUl snLen α, umUl₃ = discardRecBufs
    (sub32 lowerEdge umUl.vrUr &&& snLen.modBitMask) umUl.vrUr { umUl with vrUr := lowerEdge } :=
    ⟨_, rfl⟩
  have hrec : ∀ x, umUl₃.recBufLst x =
      if x < snLen.modulus ∧ umUl.getValue umUl.vrUr ≤ umUl.getValue x then none
      else umUl.recBufLst x := fun x => by
    rw [he, @discardRecBufs_lowerEdge snLen α { umUl with vrUr := lowerEdge } (by exact hUh)
      umUl.vrUr hUr hout _ (by rw [hlow])]
    rfl
  obtain ⟨l, hl, -⟩ := discardRecBufs_sub (sub32 lowerEdge umUl.vrUr &&& snLen.modBitMask)
    umUl.vrUr { umUl with vrUr := lowerEdge }
  have hget : ∀ x, umUl₃.getValue x = umUl.getValue x := fun x => by rw [he, hl]; rfl
  have hvrUr : umUl₃.vrUr = lowerEdge := by rw [he, hl]
  have hvrUh : umUl₃.vrUh = umUl.vrUh := by rw [he, hl]
  have hedge : umUl.getValue lowerEdge = 0 := by rw [hlow]; exact getValue_lowerEdge hUh
  have hwindow : umUl₃.WindowOk := by
    refine ⟨by rw [hvrUr, hlow]; exact le_modBitMask_iff.2 (next_lt snLen _),
      by rw [hvrUh]; exact le_modBitMask_iff.2 hUh,
      by rw [he, hl]; exact le_modBitMask_iff.2 hUx, fun x recBuf hr => ?_⟩
    rw [hrec] at hr
    split_ifs at hr with hc
    obtain ⟨h1, h2⟩ := hkeep x recBuf hr
    rw [MayKeep, hget, hget, hget, hvrUr, hvrUh, hedge, getValue_vrUh hUh]
    exact ⟨le_modBitMask_iff.2 h1, Nat.zero_le _, .inl (h2.resolve_left fun h => hc ⟨h1, h⟩)⟩
  rw [discardBelow]
  simp only [← hlow, ← he]
  by_cases hall : umUl₃.allSegRcvd umUl₃.vrUr = true
  · rw [if_pos hall]
    obtain ⟨y, hy, hpos, hlt, hm⟩ := hmiss
    refine hwindow.scanNext ⟨y, hy, by rw [hvrUr, hget, hget, hedge]; exact hpos, ?_⟩
    rw [allSegRcvd, hrec, if_neg (by omega)]
    exact hm
  · rw [if_neg hall]
    exact hwindow.noScan (by simpa using hall)

/-- A segment beyond the window moves it, and the records that fall out of it go. -/
theorem WindowOk.moveVrUh (h : umUl.WindowOk) {sn : ℕ} (hsn : sn < snLen.modulus)
    (hout : snLen.umWinSz ≤ umUl.getValue sn)
    (hle : umUl.getValue umUl.vrUr ≤ umUl.getValue sn) {l : RecBufLst (UmRecBuf α)}
    (hl : ∀ x recBuf, l x = some recBuf → x = sn ∨ umUl.recBufLst x = some recBuf)
    (hlsn : (l sn).any (·.allRcvd) = false) (hmiss : (l umUl.vrUr).any (·.allRcvd) = false) :
    ∃ umUl', runScan (({ umUl with recBufLst := l } : RlcUmUl snLen α).moveVrUh sn) =
        some umUl' ∧
      Scanned (({ umUl with recBufLst := l } : RlcUmUl snLen α).moveVrUh sn) umUl' := by
  obtain ⟨umUl₂, he⟩ : ∃ umUl₂ : RlcUmUl snLen α, umUl₂ = { umUl with
    recBufLst := l
    vrUh := (sn + 1) &&& snLen.modBitMask } := ⟨_, rfl⟩
  have hUh : umUl₂.vrUh < snLen.modulus := by rw [he]; exact next_lt snLen _
  have hvrUr : umUl₂.vrUr = umUl.vrUr := by rw [he]
  have hrec : umUl₂.recBufLst = l := by rw [he]
  have hmove := fun (x : ℕ) (hx : x < snLen.modulus) =>
    @getValue_move snLen α umUl umUl₂ h.vrUh_lt sn x hsn hout hx (by rw [he])
  have hvrUr' := hmove umUl.vrUr h.vrUr_lt
  have hlts := umUl.getValue_lt sn
  have hwin := snLen.umWinSz_cases
  have hvrUh' := getValue_vrUh hUh
  -- where the records lie in the old window
  have hold : ∀ x recBuf, l x = some recBuf → x < snLen.modulus ∧
      umUl.getValue umUl.vrUr ≤ umUl.getValue x ∧ (umUl.getValue x ≤ umUl.getValue sn ∨
        recBuf.allRcvd = true ∧ umUl.getValue x ≤ umUl.getValue umUl.vrUr + snLen.umWinSz) := by
    intro x recBuf hr
    rcases hl x recBuf hr with rfl | hr
    · exact ⟨hsn, hle, .inl le_rfl⟩
    · obtain ⟨h1, h2, h3⟩ := h.recBuf x recBuf hr
      rw [getValue_vrUh h.vrUh_lt] at h3
      exact ⟨le_modBitMask_iff.1 h1, h2, h3.imp_left fun hlt => by omega⟩
  rw [RlcUmUl.moveVrUh]
  simp only [← he]
  by_cases hin : umUl₂.getValue umUl.vrUr < snLen.umWinSz
  case pos =>
    rw [if_pos (by simpa [rlcUmmCheckSnInReassemblyWindow, hvrUh', hvrUr] using hin)]
    refine WindowOk.noScan ⟨by rw [hvrUr]; exact h.vrUr_le, le_modBitMask_iff.2 hUh,
      by rw [he]; exact h.vrUx_le, fun x recBuf hr => ?_⟩ (by rw [allSegRcvd, hrec, hvrUr, hmiss])
    rw [hrec] at hr
    obtain ⟨h1, h2, h3⟩ := hold x recBuf hr
    have hx := hmove x h1
    rw [MayKeep, hvrUh', hvrUr]
    split_ifs at hvrUr' hx with hc hc'
    · exact ⟨le_modBitMask_iff.2 h1, by omega, h3.imp (fun h3 => by omega) (And.imp_right fun h3 => by omega)⟩
    all_goals omega
  case neg =>
    rw [if_neg (by simpa [rlcUmmCheckSnInReassemblyWindow, hvrUh', hvrUr] using hin)]
    have hsn' := hmove sn hsn
    refine discardBelow_scan hUh (by rw [hvrUr]; exact h.vrUr_lt) (by rw [he]; exact h.vrUx_lt)
      (by rw [hvrUr]; omega) (fun x recBuf hr => ?_)
      ⟨sn, hsn, ?_, by rw [hvrUr]; split_ifs at hvrUr' hsn' <;> omega, by rw [allSegRcvd, hrec, hlsn]⟩
    · rw [hrec] at hr
      obtain ⟨h1, h2, h3⟩ := hold x recBuf hr
      have hx := hmove x h1
      rw [hvrUr]
      refine ⟨h1, ?_⟩
      split_ifs at hvrUr' hx with hc hc'
      all_goals omega
    · split_ifs at hsn' <;> omega

end RlcUmUl

end OaiCu.OduRlc
