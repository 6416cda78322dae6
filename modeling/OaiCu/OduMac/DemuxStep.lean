import OaiCu.OduMac.Demux

/-!
# What the demultiplexer takes for a subPDU

The index wraps at 256 octets, and the format of a subheader has the flag of its length in bit 6,
where the code looks at bit 7.
-/

namespace OaiCu.OduMac

theorem RxCursor.skip_skip (c : RxCursor) (a b : ℕ) : (c.skip a).skip b = c.skip (a + b) := by
  simp only [skip, mk.injEq]
  constructor
  · rw [Nat.mod_add_mod, Nat.add_assoc]
  · omega

@[simp] theorem RxCursor.skip_idx (c : RxCursor) (a : ℕ) :
    (c.skip a).rxPduIdx = (c.rxPduIdx + a) % 2 ^ 8 := rfl

variable {memory : ℕ → Bool} {rnti : ℕ} {block : List UInt8} {c c' : RxCursor}

/-! ## The octets of a subPDU -/

/-- An octet of the block, or 0 behind it. -/
def octetAt (block : List UInt8) (idx : ℕ) : ℕ := (octet block idx).getD 0

theorem octetAt_of_some {idx value : ℕ} (h : octet block idx = some value) :
    octetAt block idx = value := by
  rw [octetAt, h, Option.getD_some]

theorem octet_of_lt {idx : ℕ} (h : idx < block.length) :
    octet block idx = some (octetAt block idx) := by
  rw [octetAt, octet, List.getElem?_eq_getElem h]
  rfl

theorem octet_eq_none {idx : ℕ} : octet block idx = none ↔ block.length ≤ idx := by
  rw [octet, Option.map_eq_none_iff, List.getElem?_eq_none_iff]

theorem octetAt_lt (block : List UInt8) (idx : ℕ) : octetAt block idx < 2 ^ 8 := by
  rw [octetAt, octet]
  cases block[idx]? with
  | none => exact Nat.two_pow_pos 8
  | some value => exact value.toNat_lt

def lcIdAt (block : List UInt8) (idx : ℕ) : ℕ := octetAt block idx % 2 ^ 6

/-- The number of groups that a long BSR is about. -/
def groups (lcgs : ℕ) : ℕ := (List.range MAX_NUM_LOGICAL_CHANNEL_GROUPS).countP (lcgs.testBit ·)

/-- The logical channels that have a branch which reads the subPDU. -/
def Handled (lcId : ℕ) : Prop :=
  lcId ≤ MAC_LCID_MAX ∨ lcId = MAC_LCID_SHORT_BSR ∨ lcId = MAC_LCID_LONG_BSR

/-- What the code takes for the subPDU at an index: the octets that it reads one by one and those that
it copies. -/
def taken (block : List UInt8) (idx : ℕ) : ℕ × ℕ :=
  let second := octetAt block ((idx + 1) % 2 ^ 8)
  if lcIdAt block idx = MAC_LCID_CCCH then (1, CCCH_SDU_LEN)
  else if lcIdAt block idx ≤ MAC_LCID_MAX then
    if (octetAt block idx).testBit 7 then (3, 0) else (2, second)
  else if lcIdAt block idx = MAC_LCID_SHORT_BSR then (2, 0)
  else (2 + groups second, 0)

/-- The indexes of these octets. -/
def takenOctets (idx : ℕ) (t : ℕ × ℕ) : List ℕ :=
  (List.range t.1).map (fun i => (idx + i) % 2 ^ 8) ++ List.range' ((idx + t.1) % 2 ^ 8) t.2

/-- They are in the block. -/
def InBlock (block : List UInt8) (idx : ℕ) (t : ℕ × ℕ) : Prop :=
  (∀ i < t.1, (idx + i) % 2 ^ 8 < block.length) ∧ (idx + t.1) % 2 ^ 8 + t.2 ≤ block.length

/-- The octets of the subPDU by the format of its subheader, where the flag is bit 6. -/
def announced (block : List UInt8) (pos : ℕ) : ℕ :=
  if lcIdAt block pos = MAC_LCID_CCCH then 1 + CCCH_SDU_LEN
  else if lcIdAt block pos ≤ MAC_LCID_MAX then
    if (octetAt block pos).testBit 6 then
      3 + (octetAt block (pos + 1) <<< 8 ||| octetAt block (pos + 2))
    else 2 + octetAt block (pos + 1)
  else if lcIdAt block pos = MAC_LCID_SHORT_BSR then 2
  else 2 + groups (octetAt block (pos + 1))

/-- A mask of a shifted octet by another one leaves nothing. -/
theorem masked_length {high low : ℕ} (h : low < 2 ^ 8) : (high <<< 8 &&& low) % 2 ^ 16 = 0 := by
  have hzero : high <<< 8 &&& low = 0 := by
    refine Nat.eq_of_testBit_eq fun i => ?_
    rw [Nat.testBit_and, Nat.testBit_shiftLeft, Nat.zero_testBit]
    by_cases hi : 8 ≤ i
    · rw [Nat.testBit_lt_two_pow (h.trans_le (Nat.pow_le_pow_right (by decide) hi)), Bool.and_false]
    · rw [decide_eq_false hi, Bool.false_and, Bool.false_and]
  rw [hzero]
  rfl

/-! ## One round -/

/-- What a branch does: it reads outside of the block, or it stops without memory, or it hands on what
it took. -/
def Takes (memory : Bool) (block : List UInt8) (c : RxCursor) (t : ℕ × ℕ) (r : Option RxStep) : Prop :=
  (r = none ∧ ¬InBlock block c.rxPduIdx t) ∨ (r = some .stop ∧ memory = false) ∨
    (InBlock block c.rxPduIdx t ∧
      ∃ msg, r = some (.next ⟨takenOctets c.rxPduIdx t, msg⟩ (c.skip (t.1 + t.2))))

theorem copy_eq_some {idx length : ℕ} (h : idx + length ≤ block.length) :
    copy block idx length = some ((block.drop idx).take length) :=
  if_pos h

theorem copy_eq_none {idx length : ℕ} (h : ¬idx + length ≤ block.length) :
    copy block idx length = none :=
  if_neg h

/-- The index does not wrap at the first octet. -/
theorem takenOctets_header {idx : ℕ} (h : idx < 2 ^ 8) {header length : ℕ} (is : List ℕ)
    (hrange : List.range header = 0 :: is) : takenOctets idx (header, length) =
      idx :: (is.map fun i => (idx + i) % 2 ^ 8) ++ List.range' ((idx + header) % 2 ^ 8) length := by
  rw [takenOctets]
  dsimp only
  rw [hrange, List.map_cons, Nat.add_zero, Nat.mod_eq_of_lt h]

/-- The octets behind the header are copied. -/
theorem copy_takes {mem : Bool} {header length : ℕ}
    (hheader : ∀ i < header, (c.rxPduIdx + i) % 2 ^ 8 < block.length) (msg : List UInt8 → UlMsg) :
    Takes mem block c (header, length) (if mem then
      (copy block ((c.rxPduIdx + header) % 2 ^ 8) length).bind fun pdu =>
        some (.next ⟨takenOctets c.rxPduIdx (header, length), msg pdu⟩ (c.skip (header + length)))
      else some .stop) := by
  split
  · by_cases hin : (c.rxPduIdx + header) % 2 ^ 8 + length ≤ block.length
    · rw [copy_eq_some hin]
      exact .inr (.inr ⟨⟨hheader, hin⟩, _, rfl⟩)
    · rw [copy_eq_none hin]
      exact .inl ⟨rfl, fun h => hin h.2⟩
  · rename_i hmem
    exact .inr (.inl ⟨rfl, Bool.eq_false_iff.mpr hmem⟩)

section

variable {mem : Bool} (hidx : c.rxPduIdx < 2 ^ 8) (hlt : c.rxPduIdx < block.length)
include hidx hlt

theorem unpackCcch_takes :
    Takes mem block c (1, CCCH_SDU_LEN) (unpackCcch mem rnti block c) := by
  have h := @copy_takes block c mem 1 CCCH_SDU_LEN (fun i hi => ?_) (.ulCcch rnti)
  · rw [takenOctets_header hidx [] rfl, ← RxCursor.skip_skip] at h
    exact h
  · obtain rfl : i = 0 := by omega
    rwa [Nat.add_zero, Nat.mod_eq_of_lt hidx]

theorem two_inBlock (hsecond : (c.rxPduIdx + 1) % 2 ^ 8 < block.length) :
    ∀ i < 2, (c.rxPduIdx + i) % 2 ^ 8 < block.length := by
  intro i hi
  obtain rfl | rfl : i = 0 ∨ i = 1 := by omega
  · rwa [Nat.add_zero, Nat.mod_eq_of_lt hidx]
  · exact hsecond

theorem unpackSdu_takes :
    Takes mem block c (if (octetAt block c.rxPduIdx).testBit 7 then (3, 0)
      else (2, octetAt block ((c.rxPduIdx + 1) % 2 ^ 8)))
      (unpackSdu mem rnti block (octetAt block c.rxPduIdx) c) := by
  rw [unpackSdu]
  by_cases hsecond : (c.rxPduIdx + 1) % 2 ^ 8 < block.length
  swap
  · have hnone := octet_eq_none.mpr (Nat.le_of_not_lt hsecond)
    simp only [RxCursor.skip_idx, hnone]
    refine .inl ⟨rfl, fun h => hsecond (h.1 1 ?_)⟩
    split
    · exact Nat.lt_of_sub_eq_succ rfl
    · exact Nat.lt_of_sub_eq_succ rfl
  have hfirst := two_inBlock hidx hlt hsecond
  simp only [RxCursor.skip_idx, octet_of_lt hsecond, Option.bind_eq_bind, Option.bind_some]
  by_cases hflag : (octetAt block c.rxPduIdx).testBit 7 = true
  · rw [if_pos hflag, if_pos hflag]
    by_cases hthird : (c.rxPduIdx + 2) % 2 ^ 8 < block.length
    swap
    · have hnone := octet_eq_none.mpr (Nat.le_of_not_lt hthird)
      simp only [Nat.mod_add_mod, Nat.add_assoc, Nat.reduceAdd, hnone]
      exact .inl ⟨rfl, fun h => hthird (h.1 2 (by decide))⟩
    have h := @copy_takes block c mem 3 0 (fun i hi => ?_)
      (.ulData rnti (octetAt block c.rxPduIdx % 2 ^ 6))
    · rw [takenOctets_header hidx [1, 2] rfl] at h
      simp only [Nat.mod_add_mod, Nat.add_assoc, Nat.reduceAdd, octet_of_lt hthird,
        Option.bind_some, masked_length (octetAt_lt block _), RxCursor.skip_skip, Option.pure_def,
        RxCursor.skip_idx]
      exact h
    · obtain hi | rfl : i < 2 ∨ i = 2 := by omega
      · exact hfirst i hi
      · exact hthird
  · rw [if_neg hflag, if_neg hflag]
    have h := @copy_takes block c mem 2 (octetAt block ((c.rxPduIdx + 1) % 2 ^ 8)) hfirst
      (.ulData rnti (octetAt block c.rxPduIdx % 2 ^ 6))
    rw [takenOctets_header hidx [1] rfl] at h
    simp only [Nat.mod_add_mod, Nat.add_assoc, Nat.reduceAdd, RxCursor.skip_skip, Option.pure_def,
      Option.bind_some, RxCursor.skip_idx, ← Nat.add_assoc 1 1]
    exact h

theorem unpackShortBsr_takes :
    Takes mem block c (2, 0) (unpackShortBsr rnti block c) := by
  rw [unpackShortBsr]
  by_cases hsecond : (c.rxPduIdx + 1) % 2 ^ 8 < block.length
  swap
  · have hnone := octet_eq_none.mpr (Nat.le_of_not_lt hsecond)
    simp only [RxCursor.skip_idx, hnone]
    exact .inl ⟨rfl, fun h => hsecond (h.1 1 (by decide))⟩
  have hsize : octetAt block ((c.rxPduIdx + 1) % 2 ^ 8) % 2 ^ 5 < shortBsrBytesTable.length :=
    Nat.mod_lt _ (by decide)
  simp only [RxCursor.skip_idx, octet_of_lt hsecond, List.getElem?_eq_getElem hsize,
    RxCursor.skip_skip, Option.bind_eq_bind, Option.bind_some]
  refine .inr (.inr ⟨⟨two_inBlock hidx hlt hsecond, ?_⟩, ?_⟩)
  · dsimp only
    omega
  · rw [takenOctets_header hidx [1] rfl]
    exact ⟨_, rfl⟩

end

/-- The octets from a cursor on, read one by one. -/
def singles (c : RxCursor) (count : ℕ) : List ℕ :=
  (List.range count).map fun i => (c.rxPduIdx + i) % 2 ^ 8

theorem singles_succ (hc : c.skip 0 = c) (count : ℕ) :
    singles c (count + 1) = c.rxPduIdx :: singles (c.skip 1) count := by
  have hidx : c.rxPduIdx % 2 ^ 8 = c.rxPduIdx := congrArg RxCursor.rxPduIdx hc
  rw [singles, List.range_succ_eq_map, List.map_cons, List.map_map, Nat.add_zero, hidx, singles]
  refine congrArg (c.rxPduIdx :: ·) (List.map_congr_left fun i _ => ?_)
  rw [Function.comp_apply, RxCursor.skip_idx, Nat.mod_add_mod, Nat.succ_eq_add_one, Nat.add_assoc,
    Nat.add_comm 1]

theorem takenOctets_singles (c : RxCursor) (header : ℕ) :
    takenOctets c.rxPduIdx (header, 0) = singles c header :=
  List.append_nil _

theorem mem_singles {count idx : ℕ} :
    idx ∈ singles c count ↔ ∃ i < count, (c.rxPduIdx + i) % 2 ^ 8 = idx := by
  rw [singles, List.mem_map]
  simp only [List.mem_range]

theorem longBsrBytesTable_length : longBsrBytesTable.length = 2 ^ 8 := by decide +kernel

/-- The octets that a long BSR has for the groups: one of them is outside of the block, or all are
read. -/
theorem longBsrVols_spec {lcgs : ℕ} : ∀ {left lcgIdx : ℕ} {c : RxCursor}, c.skip 0 = c →
    ∃ count, count = (List.range' lcgIdx left).countP (lcgs.testBit ·) ∧
    ((longBsrVols block lcgs left lcgIdx c = none ∧ ∃ idx ∈ singles c count, block.length ≤ idx) ∨
    ((∀ idx ∈ singles c count, idx < block.length) ∧ ∃ vols,
      longBsrVols block lcgs left lcgIdx c = some (singles c count, vols, c.skip count)))
  | 0, lcgIdx, c, hc => by
      refine ⟨0, rfl, .inr ⟨?_, [], ?_⟩⟩
      · intro idx h
        cases h
      · rw [hc]
        rfl
  | left + 1, lcgIdx, c, hc => by
      have hnext : (c.skip 1).skip 0 = c.skip 1 := c.skip_skip 1 0
      rw [longBsrVols, List.range'_succ]
      by_cases hbit : lcgs.testBit lcgIdx = true
      · rw [if_pos hbit, List.countP_cons_of_pos hbit]
        have hspec := @longBsrVols_spec lcgs left (lcgIdx + 1) (c.skip 1) hnext
        obtain ⟨count, rfl, hrest⟩ := hspec
        refine ⟨_, rfl, ?_⟩
        rw [singles_succ hc]
        by_cases hlt : c.rxPduIdx < block.length
        · have hsize : octetAt block c.rxPduIdx < longBsrBytesTable.length :=
            (octetAt_lt block c.rxPduIdx).trans_eq longBsrBytesTable_length.symm
          simp only [octet_of_lt hlt, List.getElem?_eq_getElem hsize, Option.bind_eq_bind,
            Option.bind_some]
          obtain ⟨hnone, idx, hidx, hge⟩ | ⟨hall, vols, hsome⟩ := hrest
          · rw [hnone]
            exact .inl ⟨rfl, idx, List.mem_cons_of_mem _ hidx, hge⟩
          · rw [hsome, RxCursor.skip_skip, Nat.add_comm 1]
            refine .inr ⟨fun idx hidx => ?_, ⟨_, rfl⟩⟩
            rcases List.mem_cons.mp hidx with rfl | hidx
            · exact hlt
            · exact hall idx hidx
        · simp only [octet_eq_none.mpr (Nat.le_of_not_lt hlt)]
          exact .inl ⟨rfl, _, List.mem_cons_self, Nat.le_of_not_lt hlt⟩
      · rw [if_neg hbit, List.countP_cons_of_neg hbit]
        exact longBsrVols_spec hc

theorem unpackLongBsr_takes {mem : Bool} (hc : c.skip 0 = c) (hlt : c.rxPduIdx < block.length) :
    Takes mem block c (2 + groups (octetAt block ((c.rxPduIdx + 1) % 2 ^ 8)), 0)
      (unpackLongBsr rnti block c) := by
  have hnext : (c.skip 1).skip 0 = c.skip 1 := c.skip_skip 1 0
  have hsecondNext : (c.skip 2).skip 0 = c.skip 2 := c.skip_skip 2 0
  rw [unpackLongBsr]
  by_cases hsecond : (c.rxPduIdx + 1) % 2 ^ 8 < block.length
  swap
  · simp only [RxCursor.skip_idx, octet_eq_none.mpr (Nat.le_of_not_lt hsecond)]
    exact .inl ⟨rfl, fun h => hsecond (h.1 1 (by omega))⟩
  generalize hlcgs : octetAt block ((c.rxPduIdx + 1) % 2 ^ 8) = lcgs
  obtain ⟨count, hcount, hrest⟩ :=
    @longBsrVols_spec block lcgs MAX_NUM_LOGICAL_CHANNEL_GROUPS 0 (c.skip 2) hsecondNext
  obtain rfl : count = groups lcgs := by
    rw [hcount, groups, List.range_eq_range']
  have hheader : singles c (2 + groups lcgs) =
      c.rxPduIdx :: (c.skip 1).rxPduIdx :: singles (c.skip 2) (groups lcgs) := by
    rw [Nat.add_comm, singles_succ hc, singles_succ hnext, RxCursor.skip_skip]
  simp only [RxCursor.skip_idx, octet_of_lt hsecond, RxCursor.skip_skip, Option.bind_eq_bind,
    Option.bind_some, hlcgs, Nat.reduceAdd]
  obtain ⟨hnone, idx, hidx, hge⟩ | ⟨hall, vols, hsome⟩ := hrest
  · rw [hnone]
    refine .inl ⟨rfl, fun h => ?_⟩
    have hmem : idx ∈ singles c (2 + groups lcgs) := by
      rw [hheader]
      exact List.mem_cons_of_mem _ (List.mem_cons_of_mem _ hidx)
    obtain ⟨i, hi, rfl⟩ := mem_singles.mp hmem
    exact absurd (h.1 i hi) (Nat.not_lt.mpr hge)
  · rw [hsome]
    have hall' : ∀ i < 2 + groups lcgs, (c.rxPduIdx + i) % 2 ^ 8 < block.length := by
      intro i hi
      have hmem : (c.rxPduIdx + i) % 2 ^ 8 ∈ singles c (2 + groups lcgs) :=
        mem_singles.mpr ⟨i, hi, rfl⟩
      rw [hheader, List.mem_cons, List.mem_cons] at hmem
      obtain heq | heq | hmem := hmem
      · rwa [heq]
      · rwa [heq]
      · exact hall _ hmem
    refine .inr (.inr ⟨⟨hall', ?_⟩, .longBsr (rnti % 2 ^ 8) vols, ?_⟩)
    · -- the index behind the last octet is in the block, or it wrapped to 0
      have hlast := hall' (1 + groups lcgs) (by omega)
      dsimp only
      omega
    · rw [takenOctets_singles, hheader, RxCursor.skip_skip]
      rfl

/-- The subPDU at a cursor whose index is in the block. -/
theorem unpackSubPdu_takes {memory : ℕ → Bool} (hc : c.skip 0 = c)
    (hlt : c.rxPduIdx < block.length) (hhandled : Handled (lcIdAt block c.rxPduIdx)) :
    Takes (memory c.pduLen) block c (taken block c.rxPduIdx)
      (unpackSubPdu memory rnti block c) := by
  have hidx : c.rxPduIdx < 2 ^ 8 := by
    have hmod : c.rxPduIdx % 2 ^ 8 = c.rxPduIdx := congrArg RxCursor.rxPduIdx hc
    omega
  rw [unpackSubPdu, octet_of_lt hlt, taken]
  simp only [Option.bind_eq_bind, Option.bind_some, ← lcIdAt.eq_1]
  split
  · exact unpackCcch_takes hidx hlt
  split
  · exact unpackSdu_takes hidx hlt
  rename_i hmax
  obtain h | hshort | hlong := hhandled
  · exact absurd h hmax
  · have hge : ¬lcIdAt block c.rxPduIdx < MAC_LCID_SHORT_BSR := by
      rw [hshort]
      exact Nat.lt_irrefl _
    rw [if_pos hshort, if_neg hge, if_pos hshort]
    exact unpackShortBsr_takes hidx hlt
  · have hne : lcIdAt block c.rxPduIdx ≠ MAC_LCID_SHORT_BSR := by
      rw [hlong]
      decide
    have hge : ¬lcIdAt block c.rxPduIdx < MAC_LCID_SHORT_BSR := by
      rw [hlong]
      decide
    rw [if_neg hne, if_neg hge, if_neg hne, if_pos hlong]
    exact unpackLongBsr_takes hc hlt

/-! ## What a round hands on -/

/-- What a copy hands on. -/
theorem copied_msg {mem : Bool} {idx length : ℕ} {octets : List ℕ} {msg : List UInt8 → UlMsg}
    {cur : RxCursor} {s : RxSubPdu}
    (h : (if mem then (copy block idx length).bind fun pdu => some (RxStep.next ⟨octets, msg pdu⟩ cur)
      else some .stop) = some (.next s c')) :
    ∃ pdu, copy block idx length = some pdu ∧ s.msg = msg pdu := by
  split at h
  · obtain ⟨pdu, hpdu, h⟩ := Option.bind_eq_some_iff.mp h
    cases h
    exact ⟨pdu, hpdu, rfl⟩
  · cases h

theorem copy_cases {idx length : ℕ} {pdu : List UInt8} (h : copy block idx length = some pdu) :
    idx + length ≤ block.length ∧ (block.drop idx).take length = pdu := by
  rw [copy] at h
  split at h
  · rename_i hle
    exact ⟨hle, Option.some.inj h⟩
  · cases h

theorem copy_length {idx length : ℕ} {pdu : List UInt8} (h : copy block idx length = some pdu) :
    pdu.length = length := by
  obtain ⟨hle, rfl⟩ := copy_cases h
  rw [List.length_take, List.length_drop, Nat.min_eq_left]
  omega

/-- The message of an SDU: nothing is copied when bit 7 is set. -/
theorem unpackSdu_msg {mem : Bool} {first : ℕ} {s : RxSubPdu}
    (h : unpackSdu mem rnti block first c = some (.next s c')) :
    ∃ pdu, s.msg = .ulData rnti (first % 2 ^ 6) pdu ∧
      (first.testBit 7 = true ∧ pdu = [] ∨ first.testBit 7 = false ∧
        copy block ((c.rxPduIdx + 2) % 2 ^ 8) (octetAt block ((c.rxPduIdx + 1) % 2 ^ 8)) =
          some pdu) := by
  simp only [unpackSdu, Option.bind_eq_bind, Option.bind_eq_some_iff, RxCursor.skip_idx] at h
  obtain ⟨second, hsecond, h⟩ := h
  by_cases hflag : first.testBit 7 = true
  · rw [if_pos hflag] at h
    obtain ⟨third, hthird, h⟩ := Option.bind_eq_some_iff.mp h
    obtain ⟨pdu, hpdu, hmsg⟩ := copied_msg h
    rw [masked_length (octetAt_of_some hthird ▸ octetAt_lt block _)] at hpdu
    exact ⟨pdu, hmsg, .inl ⟨hflag, List.eq_nil_of_length_eq_zero (copy_length hpdu)⟩⟩
  · rw [if_neg hflag] at h
    obtain ⟨pdu, hpdu, hmsg⟩ := copied_msg h
    rw [← octetAt_of_some hsecond, RxCursor.skip_idx, Nat.mod_add_mod, Nat.add_assoc] at hpdu
    exact ⟨pdu, hmsg, .inr ⟨Bool.eq_false_iff.mpr hflag, hpdu⟩⟩

/-- Only the branch of the SDUs hands on an SDU. -/
theorem unpackSubPdu_msg {s : RxSubPdu}
    (h : unpackSubPdu memory rnti block c = some (.next s c')) :
    (0 < lcIdAt block c.rxPduIdx ∧ lcIdAt block c.rxPduIdx ≤ MAC_LCID_MAX ∧
      ∃ mem, unpackSdu mem rnti block (octetAt block c.rxPduIdx) c = some (.next s c')) ∨
    ((lcIdAt block c.rxPduIdx = MAC_LCID_CCCH ∨ ¬lcIdAt block c.rxPduIdx ≤ MAC_LCID_MAX) ∧
      ∀ r lcId pdu, s.msg ≠ .ulData r lcId pdu) := by
  simp only [unpackSubPdu, Option.bind_eq_bind, Option.bind_eq_some_iff] at h
  obtain ⟨first, hfirst, h⟩ := h
  rw [← octetAt_of_some hfirst] at h
  simp only [← lcIdAt.eq_1] at h
  split at h
  · rename_i hzero
    obtain ⟨pdu, -, hmsg⟩ := copied_msg h
    exact .inr ⟨.inl hzero, fun _ _ _ hdata => by cases hmsg.symm.trans hdata⟩
  split at h
  · rename_i hzero hmax
    exact .inl ⟨Nat.pos_of_ne_zero hzero, hmax, _, h⟩
  rename_i hmax
  refine .inr ⟨.inr hmax, fun r lcId pdu hdata => ?_⟩
  split at h
  · cases h
  split at h
  · simp only [unpackShortBsr, Option.bind_eq_bind, Option.bind_eq_some_iff] at h
    obtain ⟨bsr, -, bufferSize, -, h⟩ := h
    cases h
    cases hdata
  split at h
  · simp only [unpackLongBsr, Option.bind_eq_bind, Option.bind_eq_some_iff] at h
    obtain ⟨lcgs, -, ⟨octets, vols, cur⟩, -, h⟩ := h
    cases h
    cases hdata
  · cases h

end OaiCu.OduMac
