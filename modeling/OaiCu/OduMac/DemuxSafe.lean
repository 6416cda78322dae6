import OaiCu.OduMac.DemuxStep

/-!
# When the demultiplexer is safe

A run hands on subPDUs that lie in the block one behind the other, and ends. The condition is on the
block alone: each subPDU has a branch that reads it, its subheader is in front of the index that
wraps, and the code takes for it the octets that it has.
-/

namespace OaiCu.OduMac

variable {memory : ℕ → Bool} {rnti : ℕ} {block : List UInt8} {pos : ℕ}

/-- The subPDUs lie in the block, each at the position behind the one before. -/
def Contained (block : List UInt8) : ℕ → List RxSubPdu → Prop
  | _, [] => True
  | pos, subPdu :: subPdus =>
    (∃ len, subPdu.octets = List.range' pos len ∧ pos + len ≤ block.length) ∧
      pos + announced block pos ≤ block.length ∧
      Contained block (pos + announced block pos) subPdus

/-- The loop ends without reading outside of the block, and what it handed on was contained in it. -/
def Safe (memory : ℕ → Bool) (rnti : ℕ) (block : List UInt8) : Prop :=
  ∃ fuel subPdus, unpackRxData memory rnti block fuel = (.returned, subPdus) ∧
    Contained block 0 subPdus

/-- The block ends here, or the code finds padding. -/
def Stops (block : List UInt8) (pos : ℕ) : Prop :=
  pos = block.length ∨ pos < block.length ∧ lcIdAt block (pos % 2 ^ 8) = MAC_LCID_PADDING

/-- A subPDU that has a branch and is in the block, with its subheader in front of the octet where
the index wraps. -/
structure Fits (block : List UInt8) (pos : ℕ) : Prop where
  handled : Handled (lcIdAt block pos)
  header : pos + (taken block pos).1 ≤ 2 ^ 8
  copied : 0 < (taken block pos).2 → pos + (taken block pos).1 < 2 ^ 8
  ends : pos + ((taken block pos).1 + (taken block pos).2) ≤ block.length
  announced : pos + announced block pos ≤ block.length

/-- The blocks that are read as their subheaders say. The last subPDU may be one of which the code
takes less, when padding seems to follow there. -/
inductive WellFramed (block : List UInt8) : ℕ → Prop
  | stops {pos : ℕ} (h : Stops block pos) : WellFramed block pos
  | last {pos : ℕ} (h : Fits block pos)
      (hstops : Stops block (pos + ((taken block pos).1 + (taken block pos).2))) :
      WellFramed block pos
  | next {pos : ℕ} (h : Fits block pos)
      (htaken : (taken block pos).1 + (taken block pos).2 = announced block pos)
      (hnext : WellFramed block (pos + announced block pos)) : WellFramed block pos

/-! ## Sizes -/

theorem groups_le (lcgs : ℕ) : groups lcgs ≤ 8 :=
  List.countP_le_length

theorem taken_pos (block : List UInt8) (pos : ℕ) : 0 < (taken block pos).1 := by
  simp only [taken]
  split
  · exact Nat.one_pos
  · split
    · split
      · exact Nat.succ_pos 2
      · exact Nat.succ_pos 1
    · split
      · exact Nat.succ_pos 1
      · exact Nat.add_pos_left Nat.two_pos _

theorem taken_le (block : List UInt8) (pos : ℕ) :
    (taken block pos).1 + (taken block pos).2 ≤ 257 := by
  have hsecond := octetAt_lt block ((pos + 1) % 2 ^ 8)
  have hgroups := groups_le (octetAt block ((pos + 1) % 2 ^ 8))
  simp only [taken]
  split
  · decide
  · split
    · split
      · exact Nat.le_of_ble_eq_true rfl
      · dsimp only
        omega
    · split
      · exact Nat.le_of_ble_eq_true rfl
      · dsimp only
        omega

theorem two_le_announced (block : List UInt8) (pos : ℕ) : 2 ≤ announced block pos := by
  simp only [announced]
  split
  · decide
  · split
    · split
      · exact (Nat.le_of_ble_eq_true rfl : 2 ≤ 3).trans (Nat.le_add_right _ _)
      · exact Nat.le_add_right _ _
    · split
      · exact Nat.le_refl 2
      · exact Nat.le_add_right _ _

/-! ## The cursor at a position -/

def cursorAt (block : List UInt8) (pos : ℕ) : RxCursor := ⟨pos % 2 ^ 8, block.length - pos⟩

theorem cursorAt_skip (hn : block.length < 2 ^ 16) {octets : ℕ} (h : pos + octets ≤ block.length) :
    (cursorAt block pos).skip octets = cursorAt block (pos + octets) := by
  simp only [cursorAt, RxCursor.skip, RxCursor.mk.injEq]
  constructor
  · exact Nat.mod_add_mod pos _ octets
  · omega

theorem cursorAt_skip_zero (hn : block.length < 2 ^ 16) (h : pos ≤ block.length) :
    (cursorAt block pos).skip 0 = cursorAt block pos :=
  cursorAt_skip hn h

theorem idx_lt (h : pos < block.length) : (cursorAt block pos).rxPduIdx < block.length :=
  (Nat.mod_le pos _).trans_lt h

theorem unpackSubPdu_padding (h : pos < block.length)
    (hlcId : lcIdAt block (pos % 2 ^ 8) = MAC_LCID_PADDING) :
    unpackSubPdu memory rnti block (cursorAt block pos) = some .stop := by
  have hlt : pos % 2 ^ 8 < block.length := (Nat.mod_le pos _).trans_lt h
  rw [lcIdAt] at hlcId
  simp only [unpackSubPdu, cursorAt, octet_of_lt hlt, hlcId, Option.bind_eq_bind, Option.bind_some]
  rfl

/-- The other logical channels leave the cursors. -/
theorem unpackSubPdu_again (h : pos < block.length)
    (hhandled : ¬Handled (lcIdAt block (pos % 2 ^ 8)))
    (hlcId : lcIdAt block (pos % 2 ^ 8) ≠ MAC_LCID_PADDING) :
    unpackSubPdu memory rnti block (cursorAt block pos) = some .again := by
  have hlt : pos % 2 ^ 8 < block.length := (Nat.mod_le pos _).trans_lt h
  have hbound : lcIdAt block (pos % 2 ^ 8) < 2 ^ 6 := Nat.mod_lt _ (by decide)
  simp only [Handled, not_or] at hhandled
  obtain ⟨hmax, hshort, hlong⟩ := hhandled
  simp only [unpackSubPdu, cursorAt, octet_of_lt hlt, Option.bind_eq_bind, Option.bind_some,
    ← lcIdAt.eq_1]
  have hzero : lcIdAt block (pos % 2 ^ 8) ≠ MAC_LCID_CCCH := fun h0 => hmax (h0 ▸ Nat.zero_le _)
  have hless : lcIdAt block (pos % 2 ^ 8) < MAC_LCID_SHORT_BSR := by
    simp only [MAC_LCID_PADDING, MAC_LCID_SHORT_BSR, MAC_LCID_LONG_BSR] at *
    omega
  rw [if_neg hzero, if_neg hmax, if_pos hless]
  rfl

/-! ## From the condition to the runs -/

theorem Stops.unpackLoop (h : Stops block pos) :
    unpackLoop memory rnti block 1 (cursorAt block pos) = (.returned, []) := by
  rw [OduMac.unpackLoop]
  obtain rfl | ⟨hlt, hlcId⟩ := h
  · have hleft : (cursorAt block block.length).pduLen = 0 := Nat.sub_self _
    rw [if_pos hleft]
  · have hleft : (cursorAt block pos).pduLen ≠ 0 := Nat.sub_ne_zero_of_lt hlt
    rw [if_neg hleft, unpackSubPdu_padding hlt hlcId]

/-- A subPDU that fits begins at the index of the code. -/
theorem Fits.lt (h : Fits block pos) : pos < 2 ^ 8 ∧ pos < block.length := by
  have hpos := taken_pos block pos
  have hheader := h.header
  have hends := h.ends
  constructor
  · omega
  · omega

theorem Fits.inBlock (h : Fits block pos) : InBlock block pos (taken block pos) := by
  have hheader := h.header
  have hcopied := h.copied
  have hends := h.ends
  constructor
  · intro i hi
    omega
  · omega

theorem Fits.takenOctets (h : Fits block pos) : takenOctets pos (taken block pos) =
    List.range' pos ((taken block pos).1 + (taken block pos).2) := by
  have hheader := h.header
  have hcopied := h.copied
  have hfirst : (List.range (taken block pos).1).map (fun i => (pos + i) % 2 ^ 8) =
      List.range' pos (taken block pos).1 := by
    rw [List.range'_eq_map_range]
    refine List.map_congr_left fun i hi => Nat.mod_eq_of_lt ?_
    have hlt := List.mem_range.mp hi
    omega
  rw [OduMac.takenOctets, hfirst, ← List.range'_append_1]
  rcases Nat.eq_zero_or_pos (taken block pos).2 with hzero | hpos
  · rw [hzero, List.range'_zero, List.range'_zero]
  · rw [Nat.mod_eq_of_lt (hcopied hpos)]

/-- The round of a subPDU that fits hands it on, or stops without memory. -/
theorem Fits.round (hn : block.length < 2 ^ 16) (h : Fits block pos) :
    unpackSubPdu memory rnti block (cursorAt block pos) = some .stop ∨
    ∃ msg, unpackSubPdu memory rnti block (cursorAt block pos) =
      some (.next ⟨List.range' pos ((taken block pos).1 + (taken block pos).2), msg⟩
        (cursorAt block (pos + ((taken block pos).1 + (taken block pos).2)))) := by
  have hidx : (cursorAt block pos).rxPduIdx = pos := Nat.mod_eq_of_lt h.lt.1
  have htakes := @unpackSubPdu_takes rnti block (cursorAt block pos) memory
    (cursorAt_skip_zero hn h.lt.2.le) (idx_lt h.lt.2) (hidx.symm ▸ h.handled)
  rw [hidx] at htakes
  obtain ⟨-, hout⟩ | ⟨hstop, -⟩ | ⟨-, msg, hnext⟩ := htakes
  · exact absurd (hidx.symm ▸ h.inBlock) hout
  · exact .inl hstop
  · rw [hidx, h.takenOctets, cursorAt_skip hn h.ends] at hnext
    exact .inr ⟨msg, hnext⟩

/-- A run that hands on a subPDU that fits and goes on behind it. -/
theorem Fits.run (hn : block.length < 2 ^ 16) (h : Fits block pos) {fuel : ℕ} {subPdus : List RxSubPdu}
    (hrest : unpackLoop memory rnti block fuel
      (cursorAt block (pos + ((taken block pos).1 + (taken block pos).2))) = (.returned, subPdus))
    (hcontained : Contained block (pos + OduMac.announced block pos) subPdus) :
    ∃ fuel subPdus, unpackLoop memory rnti block fuel (cursorAt block pos) = (.returned, subPdus) ∧
      Contained block pos subPdus := by
  have hleft : (cursorAt block pos).pduLen ≠ 0 := Nat.sub_ne_zero_of_lt h.lt.2
  obtain hstop | ⟨msg, hnext⟩ := @Fits.round memory rnti block pos hn h
  · refine ⟨1, [], ?_, trivial⟩
    rw [unpackLoop, if_neg hleft, hstop]
  · refine ⟨fuel + 1, ⟨_, msg⟩ :: subPdus, ?_, ⟨_, rfl, h.ends⟩, h.announced, hcontained⟩
    rw [unpackLoop, if_neg hleft, hnext]
    dsimp only
    rw [hrest]

theorem WellFramed.run (hn : block.length < 2 ^ 16) (h : WellFramed block pos) :
    ∃ fuel subPdus, unpackLoop memory rnti block fuel (cursorAt block pos) = (.returned, subPdus) ∧
      Contained block pos subPdus := by
  induction h with
  | stops h => exact ⟨1, [], h.unpackLoop, trivial⟩
  | last h hstops => exact Fits.run hn h hstops.unpackLoop trivial
  | next h htaken _ ih =>
    obtain ⟨fuel, subPdus, hrest, hcontained⟩ := ih
    exact Fits.run hn h (htaken.symm ▸ hrest) hcontained

/-! ## From the runs to the condition -/

/-- With memory, a run that returns stops where it is or hands on what it takes for a subPDU. -/
theorem returned_cases (hn : block.length < 2 ^ 16) : ∀ {fuel pos : ℕ} {subPdus : List RxSubPdu},
    pos ≤ block.length →
    unpackLoop (fun _ => true) rnti block fuel (cursorAt block pos) = (.returned, subPdus) →
    (Stops block pos ∧ subPdus = []) ∨
    (Handled (lcIdAt block (pos % 2 ^ 8)) ∧ ∃ fuel' < fuel, ∃ subPdu rest,
      subPdus = subPdu :: rest ∧
      subPdu.octets = takenOctets (pos % 2 ^ 8) (taken block (pos % 2 ^ 8)) ∧
      unpackSubPdu (fun _ => true) rnti block (cursorAt block pos) = some (.next subPdu
        ((cursorAt block pos).skip
          ((taken block (pos % 2 ^ 8)).1 + (taken block (pos % 2 ^ 8)).2))) ∧
      unpackLoop (fun _ => true) rnti block fuel' ((cursorAt block pos).skip
        ((taken block (pos % 2 ^ 8)).1 + (taken block (pos % 2 ^ 8)).2)) = (.returned, rest))
  | fuel, pos, subPdus, hpos, hrun => by
      obtain rfl | hlt := hpos.eq_or_lt
      · have hleft : (cursorAt block block.length).pduLen = 0 := Nat.sub_self _
        have hempty : subPdus = [] := by
          cases fuel with
          | zero => exact (congrArg Prod.snd hrun).symm
          | succ fuel =>
            rw [unpackLoop, if_pos hleft] at hrun
            exact (congrArg Prod.snd hrun).symm
        exact .inl ⟨.inl rfl, hempty⟩
      have hleft : (cursorAt block pos).pduLen ≠ 0 := Nat.sub_ne_zero_of_lt hlt
      cases fuel with
      | zero =>
        rw [unpackLoop, if_neg hleft] at hrun
        cases congrArg Prod.fst hrun
      | succ fuel =>
        rw [unpackLoop, if_neg hleft] at hrun
        by_cases hhandled : Handled (lcIdAt block (pos % 2 ^ 8))
        · obtain ⟨hnone, -⟩ | ⟨-, hmemory⟩ | ⟨-, msg, hnext⟩ :=
            @unpackSubPdu_takes rnti block (cursorAt block pos) (fun _ => true)
              (cursorAt_skip_zero hn hpos) (idx_lt hlt) hhandled
          · rw [hnone] at hrun
            cases congrArg Prod.fst hrun
          · cases hmemory
          · rw [hnext] at hrun
            dsimp only at hrun
            obtain ⟨hreturned, rfl⟩ := Prod.mk.inj hrun
            exact .inr ⟨hhandled, fuel, Nat.lt_succ_self fuel, _, _, rfl, rfl, hnext,
              Prod.ext hreturned rfl⟩
        by_cases hlcId : lcIdAt block (pos % 2 ^ 8) = MAC_LCID_PADDING
        · rw [unpackSubPdu_padding hlt hlcId] at hrun
          exact .inl ⟨.inr ⟨hlt, hlcId⟩, (congrArg Prod.snd hrun).symm⟩
        · -- the round changes nothing
          rw [unpackSubPdu_again hlt hhandled hlcId] at hrun
          obtain hstops | ⟨hhandled', -⟩ := returned_cases hn hpos hrun
          · exact .inl hstops
          · exact absurd hhandled' hhandled

/-- What follows when the octets that are taken are in the order of the block. -/
theorem range'_of_takenOctets {idx len : ℕ} {t : ℕ × ℕ}
    (h : takenOctets (pos % 2 ^ 8) t = List.range' idx len) :
    len = t.1 + t.2 ∧ (∀ i < t.1, (pos + i) % 2 ^ 8 = idx + i) ∧
      (0 < t.2 → (pos + t.1) % 2 ^ 8 = idx + t.1) := by
  have hlen : t.1 + t.2 = len := by
    have hlength := congrArg List.length h
    rw [takenOctets, List.length_append, List.length_map, List.length_range, List.length_range',
      List.length_range'] at hlength
    exact hlength
  have hat : ∀ i < t.1 + t.2, (takenOctets (pos % 2 ^ 8) t)[i]? = some (idx + i) := by
    intro i hi
    rw [h, List.getElem?_range' (hlen ▸ hi), Nat.one_mul]
  refine ⟨hlen.symm, fun i hi => ?_, fun hcopied => ?_⟩
  · have hheader : i < ((List.range t.1).map fun i => (pos % 2 ^ 8 + i) % 2 ^ 8).length := by
      rwa [List.length_map, List.length_range]
    have hread := hat i (Nat.lt_add_right _ hi)
    rw [takenOctets, List.getElem?_append_left hheader, List.getElem?_map,
      List.getElem?_range hi] at hread
    exact (Nat.mod_add_mod pos _ i).symm.trans (Option.some.inj hread)
  · have hread := hat t.1 (Nat.lt_add_of_pos_right hcopied)
    rw [takenOctets, List.getElem?_append_right (by rw [List.length_map, List.length_range]),
      List.length_map, List.length_range, Nat.sub_self, List.getElem?_range' hcopied] at hread
    exact (Nat.mod_add_mod pos _ t.1).symm.trans (Option.some.inj hread)

theorem WellFramed.of_run (hn : block.length < 2 ^ 16) : ∀ {fuel pos : ℕ} {subPdus : List RxSubPdu},
    pos ≤ block.length →
    unpackLoop (fun _ => true) rnti block fuel (cursorAt block pos) = (.returned, subPdus) →
    Contained block pos subPdus → WellFramed block pos
  | fuel, pos, subPdus, hpos, hrun, hcontained => by
      obtain ⟨hstops, -⟩ | ⟨hhandled, fuel', hless, subPdu, rest, rfl, htook, -, hrest⟩ :=
        returned_cases hn hpos hrun
      · exact .stops hstops
      obtain ⟨⟨len, hoctets, hend⟩, hannounced, hcontained⟩ := hcontained
      rw [htook] at hoctets
      obtain ⟨rfl, hheader, hcopied⟩ := range'_of_takenOctets hoctets
      have hidx : pos % 2 ^ 8 = pos := hheader 0 (taken_pos block _)
      rw [hidx] at hheader hcopied hend hhandled hrest
      have hsubheader := hheader ((taken block pos).1 - 1) (Nat.sub_lt (taken_pos block _) Nat.one_pos)
      replace hheader : pos + (taken block pos).1 ≤ 2 ^ 8 := by omega
      replace hcopied : 0 < (taken block pos).2 → pos + (taken block pos).1 < 2 ^ 8 := by
        intro hpos
        have hmod := hcopied hpos
        omega
      have hfits : Fits block pos := ⟨hhandled, hheader, hcopied, hend, hannounced⟩
      rw [cursorAt_skip hn hend] at hrest
      by_cases htaken : (taken block pos).1 + (taken block pos).2 = announced block pos
      · rw [htaken] at hrest
        exact .next hfits htaken (WellFramed.of_run hn hannounced hrest hcontained)
      · obtain ⟨hstops, -⟩ | ⟨-, -, -, subPdu', rest', rfl, htook', -⟩ := returned_cases hn hend hrest
        · exact .last hfits hstops
        · -- the next one is not at the position behind this one
          obtain ⟨⟨len', hoctets', -⟩, -⟩ := hcontained
          rw [htook'] at hoctets'
          have hat := (range'_of_takenOctets hoctets').2.1 0 (taken_pos block _)
          have htaken_le := taken_le block pos
          have htwo := two_le_announced block pos
          omega
  termination_by fuel => fuel

end OaiCu.OduMac
