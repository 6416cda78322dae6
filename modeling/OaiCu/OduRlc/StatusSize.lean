import OaiCu.OduRlc.Shares
import OaiCu.OduRlc.StatusRoundTrip

/-!
# The size of the STATUS

`controlBo` is added up while the entries are still being filled, and it is what MAC sizes the
grant with. It is the length of the STATUS PDU exactly if what some entries lack is what others
have too much (`controlBo_right_iff`):

* the four octets of the offsets are left out if a whole SN is joined by losses the last of
  which ends at byte 0, since an end at byte 0 is taken for no offsets,
* they are counted twice if an entry starts with the segment at byte 0 and goes on, which it
  does over the end of the SNs,
* a range that is full counts the octets that its last loss asks for, and the place behind it
  is never filled and counts no SN.
-/

namespace OaiCu.OduRlc

namespace Share

/-- The place is filled for a segment. -/
def startsSeg (share : Share) : Bool := share.first.any fun loss => loss.isSegment

/-- The place is filled for a segment at byte 0. -/
def startsAtZero (share : Share) : Bool :=
  share.first.any fun loss => loss.isSegment && loss.soStart == 0

/-- The last loss that joins is a segment that ends at byte 0. -/
def endsAtZero (share : Share) : Bool :=
  share.rest.getLast?.any fun loss => loss.isSegment && loss.soEnd == 0

/-- The losses that join bring the range to 255. -/
def isFull (share : Share) : Bool := share.count == 255

/-- The octets of the entry that are not counted. -/
def short (snLen : SnLen) (share : Share) : ℕ :=
  (if share.first = none then snLen.nackSnSize else 0) +
    if share.startsSeg then 0
    else if share.isFull then
      if share.rest.dropLast.any fun loss => loss.isSegment then 4
      else if share.rest.getLast?.any fun loss => loss.isSegment then 0
      else 1
    else if share.endsAtZero then 4
    else 0

/-- The octets that are counted and that the entry does not have. -/
def long (share : Share) : ℕ :=
  if share.rest ≠ [] ∧ !share.isFull ∧ share.startsAtZero ∧ !share.endsAtZero then 4 else 0

end Share

/-- With a grant that is large enough the STATUS PDU has the length that was announced. -/
def RlcAmUl.ControlBoRight (amUl : RlcAmUl) : Prop :=
  ∃ sta, rlcAmmUlAssembleCntrlInfo amUl = some sta ∧
    ∃ grant : ℤ, ∀ pduSz ≥ grant, ∃ mBuf left,
      rlcAmmCreateStatusPdu amUl.snLen sta pduSz = some (mBuf, left) ∧ mBuf.length = sta.controlBo

/-! ## The entry of a share -/

theorem nackSize_eq (snLen : SnLen) (isSegment : Bool) :
    nackSize snLen isSegment = snLen.nackSnSize + if isSegment then 4 else 0 := by
  cases snLen <;> cases isSegment <;> rfl

theorem nackSize_le (snLen : SnLen) (isSegment : Bool) : nackSize snLen isSegment ≤ 7 := by
  cases snLen <;> cases isSegment <;> decide

theorem rangeSize_le (nackInfo : RlcNackInfo) : rangeSize nackInfo ≤ 5 := by
  unfold rangeSize
  split_ifs <;> omega

theorem fullSize_le (nackInfo : RlcNackInfo) (loss : Loss) : fullSize nackInfo loss ≤ 5 := by
  unfold fullSize
  split_ifs <;> omega

section

variable (nackInfo : RlcNackInfo) (loss : Loss)

theorem join_isSegment :
    (nackInfo.join loss).isSegment = (nackInfo.isSegment || loss.isSegment) := by
  simp only [RlcNackInfo.join, RlcNackInfo.moveEnd, RlcNackInfo.countSn]
  split_ifs <;> simp_all

theorem join_nackRange_ne_zero : (nackInfo.join loss).nackRange ≠ 0 := by
  have h := join_count nackInfo loss
  rw [RlcNackInfo.count] at h
  have := Nat.le_max_right nackInfo.nackRange 1
  rw [← RlcNackInfo.count] at this
  omega

/-- The end is at byte 0 if the last loss is a segment that ends there, and without offsets. -/
theorem join_soEnd_eq_zero :
    (nackInfo.join loss).soEnd = 0 ↔
      if loss.isSegment then loss.soEnd = 0 else nackInfo.isSegment = false := by
  simp only [RlcNackInfo.join, RlcNackInfo.moveEnd, RlcNackInfo.countSn]
  cases loss.isSegment with
  | true => rfl
  | false => by_cases hs : nackInfo.isSegment = true <;> simp [hs, RLC_ALL_BYTES_MISSING]

theorem join_soStart_of_whole (h : nackInfo.soStart = 0) : (nackInfo.join loss).soStart = 0 :=
  Nat.eq_zero_of_le_zero ((join_soStart_le nackInfo loss).trans h.le)

end

namespace Share

variable {snLen : SnLen} {share : Share}

theorem entry_isSegment (share : Share) :
    share.entry.isSegment = (share.startsSeg || share.rest.any fun loss => loss.isSegment) := by
  obtain ⟨first, rest⟩ := share
  induction rest using List.reverseRecOn with
  | nil =>
      cases first with
      | none => rfl
      | some first => simp [entry, startsSeg, Loss.entry]
  | append_singleton rest loss ih =>
      have h := entry_add ⟨first, rest⟩ loss
      rw [add] at h
      rw [h, join_isSegment, ih, List.any_append]
      simp [startsSeg, Bool.or_assoc]

theorem entry_soStart_of_seg {first : Loss} {rest : List Loss} (h : first.isSegment = true) :
    (entry ⟨some first, rest⟩).soStart = first.soStart := by
  induction rest using List.reverseRecOn with
  | nil => rfl
  | append_singleton rest loss ih =>
      have hs : (entry ⟨some first, rest⟩).isSegment = true := by
        rw [entry_isSegment]
        simp [startsSeg, h]
      have e := entry_add ⟨some first, rest⟩ loss
      rw [add] at e
      rw [e, (join_soStart_eq _ loss hs).2, ih]

theorem entry_soStart_of_whole
    (h : ∀ first, share.first = some first → first.soStart = 0) : share.entry.soStart = 0 := by
  obtain ⟨first, rest⟩ := share
  induction rest using List.reverseRecOn with
  | nil =>
      cases first with
      | none => rfl
      | some first => exact h first rfl
  | append_singleton rest loss ih =>
      have e := entry_add ⟨first, rest⟩ loss
      rw [add] at e
      rw [e]
      exact join_soStart_of_whole _ loss (ih h)

/-- A whole SN starts at byte 0. -/
def WholeAtZero (share : Share) : Prop :=
  ∀ first, share.first = some first → first.isSegment = false → first.soStart = 0

theorem entry_soStart_eq_zero (hw : share.WholeAtZero) :
    share.entry.soStart = 0 ↔ (share.startsSeg = true → share.startsAtZero = true) := by
  obtain ⟨first, rest⟩ := share
  rcases first with _ | first
  · have h0 : (entry ⟨none, rest⟩).soStart = 0 := entry_soStart_of_whole fun _ h => by cases h
    simp [h0, startsSeg]
  · cases hs : first.isSegment with
    | true =>
        rw [entry_soStart_of_seg hs]
        simp [startsSeg, startsAtZero, hs]
    | false =>
        have h0 : (entry ⟨some first, rest⟩).soStart = 0 := by
          refine entry_soStart_of_whole fun loss hloss => ?_
          obtain rfl : first = loss := Option.some.inj hloss
          exact hw first rfl hs
        simp [h0, startsSeg, hs]

theorem headSize_eq (share : Share) :
    share.headSize snLen + (if share.first = none then snLen.nackSnSize else 0) =
      snLen.nackSnSize + if share.startsSeg then 4 else 0 := by
  obtain ⟨first, rest⟩ := share
  cases first with
  | none => simp [headSize, startsSeg]
  | some first => cases hs : first.isSegment <;> simp [headSize, startsSeg, nackSize_eq, hs]

theorem startsSeg_of_startsAtZero (h : share.startsAtZero = true) : share.startsSeg = true := by
  obtain ⟨first, rest⟩ := share
  cases first with
  | none => cases h
  | some first =>
      simp only [startsAtZero, startsSeg, Option.any_some, Bool.and_eq_true] at h ⊢
      exact h.1

/-- A share that nothing joins has no range, and counts what its place is filled for. -/
theorem size_add_short_of_nil (hnil : share.rest = []) :
    share.size snLen + share.short snLen = nackOctets snLen share.entry + share.long := by
  have hhead := @headSize_eq snLen share
  have hrange : share.entry.nackRange = 0 := by
    rw [entry, hnil]
    cases share.first <;> rfl
  have hseg : share.entry.isSegment = share.startsSeg := by
    rw [entry_isSegment, hnil, List.any_nil, Bool.or_false]
  have htail : share.tailSize = 0 := by rw [tailSize, hnil, List.getLast?_nil]
  have hends : share.endsAtZero = false := by rw [endsAtZero, hnil]; rfl
  have hfull : share.isFull = false := by rw [isFull, count, hnil]; rfl
  have hlong : share.long = 0 := if_neg fun h => h.1 hnil
  have hshort : share.short snLen = if share.first = none then snLen.nackSnSize else 0 := by
    simp [short, hends, hfull]
  have hoctets : nackOctets snLen share.entry =
      snLen.nackSnSize + if share.startsSeg then 4 else 0 := by
    rw [nackOctets, hseg, hrange, if_neg (not_not.2 rfl), Nat.add_zero]
  rw [size, htail, hlong, hshort, hoctets]
  omega

section

variable (share : Share) (loss : Loss)

theorem startsSeg_add : (share.add loss).startsSeg = share.startsSeg := rfl

theorem endsAtZero_add :
    (share.add loss).endsAtZero = (loss.isSegment && loss.soEnd == 0) := by
  simp [endsAtZero, add]

theorem add_rest_ne_nil : (share.add loss).rest ≠ [] := by simp [add]

theorem isSegment_add : (share.add loss).entry.isSegment = (share.entry.isSegment || loss.isSegment) := by
  rw [entry_add, join_isSegment]

/-- The end of the offsets is not zero if there are offsets and they do not end at byte 0. -/
theorem soEnd_add_ne_zero :
    (share.add loss).entry.soEnd ≠ 0 ↔
      (share.add loss).entry.isSegment = true ∧ (share.add loss).endsAtZero = false := by
  rw [isSegment_add, endsAtZero_add, entry_add, ne_eq, join_soEnd_eq_zero]
  cases hl : loss.isSegment with
  | true => simp
  | false => simp

theorem nackOctets_add (snLen : SnLen) :
    nackOctets snLen (share.add loss).entry =
      snLen.nackSnSize + (if (share.add loss).entry.isSegment then 4 else 0) + 1 := by
  rw [nackOctets, entry_add, if_pos (join_nackRange_ne_zero share.entry loss)]

end

/-- A share that is closed by a loss which does not join: the offsets of an entry that is not
filled for a segment are counted with the range. -/
theorem size_add_short_of_open {loss : Loss} (hw : (share.add loss).WholeAtZero)
    (hfull : (share.add loss).isFull = false) :
    (share.add loss).size snLen + (share.add loss).short snLen =
      nackOctets snLen (share.add loss).entry + (share.add loss).long := by
  have hhead := @headSize_eq snLen (share.add loss)
  have hstart := entry_soStart_eq_zero hw
  have hend := soEnd_add_ne_zero share loss
  have hseg := entry_isSegment share
  have hadd := isSegment_add share loss
  have hrest := add_rest_ne_nil share loss
  have htail : (share.add loss).tailSize =
      if (share.add loss).entry.soEnd ≠ 0 ∧ (share.add loss).entry.soStart = 0 then 5 else 1 := by
    have hlast : (share.add loss).rest.getLast? = some loss := by simp [add]
    rw [isFull, beq_eq_false_iff_ne] at hfull
    rw [tailSize, hlast]
    simp only [hfull, if_false]
    rw [OduRlc.rangeSize, entry_add, if_pos (join_nackRange_ne_zero share.entry loss)]
  simp only [hend, hstart] at htail
  rw [size, htail, nackOctets_add, short, long, hfull]
  cases hs : (share.add loss).startsSeg with
  | true =>
      -- filled for a segment, so the offsets are counted with the place
      have hseg' : (share.add loss).entry.isSegment = true := by
        rw [startsSeg_add] at hs
        rw [hadd, hseg, hs]
        rfl
      rw [hs] at hhead
      cases hz : (share.add loss).startsAtZero <;> cases he : (share.add loss).endsAtZero <;>
        simp [hseg', hrest] <;> simp at hhead <;> omega
  | false =>
      have hz : (share.add loss).startsAtZero = false :=
        Bool.eq_false_iff.2 fun h => by simp [startsSeg_of_startsAtZero h] at hs
      rw [hs] at hhead
      cases he : (share.add loss).endsAtZero with
      | true =>
          have hl : loss.isSegment = true := by
            rw [endsAtZero_add, Bool.and_eq_true] at he
            exact he.1
          simp [hadd, hl, hz]
          simp at hhead
          omega
      | false =>
          cases hi : (share.add loss).entry.isSegment <;> simp [hz] <;> simp at hhead <;> omega

/-- A share that a loss fills up: the offsets are counted with this loss or not at all. -/
theorem size_add_short_of_full {loss : Loss} (hfull : (share.add loss).isFull = true) :
    (share.add loss).size snLen + (share.add loss).short snLen =
      nackOctets snLen (share.add loss).entry + (share.add loss).long := by
  have hhead := @headSize_eq snLen (share.add loss)
  have hseg := entry_isSegment share
  have hlast : (share.add loss).rest.getLast? = some loss := by simp [add]
  have hdrop : (share.add loss).rest.dropLast = share.rest := by simp [add]
  have htail : (share.add loss).tailSize = fullSize share.entry loss := by
    rw [isFull, beq_iff_eq] at hfull
    exact tailSize_add hfull
  have hlong : (share.add loss).long = 0 := if_neg fun h => by simp [hfull] at h
  rw [size, htail, hlong, fullSize, nackOctets_add, isSegment_add, short, hfull, hlast, hdrop, hseg]
  rw [startsSeg_add] at hhead ⊢
  cases hs : share.startsSeg with
  | true =>
      rw [hs] at hhead
      simp at hhead ⊢
      omega
  | false =>
      rw [hs] at hhead
      cases hi : (share.rest.any fun loss => loss.isSegment) <;> cases hl : loss.isSegment <;>
        simp [hl] <;> simp at hhead <;> omega

/-- **What is counted for a share and what is not.** -/
theorem size_add_short (hw : share.WholeAtZero) :
    share.size snLen + share.short snLen = nackOctets snLen share.entry + share.long := by
  obtain ⟨first, rest⟩ := share
  rcases List.eq_nil_or_concat rest with rfl | ⟨init, loss, rfl⟩
  · exact size_add_short_of_nil rfl
  · have h : (⟨first, init.concat loss⟩ : Share) = add ⟨first, init⟩ loss := by
      rw [add, List.concat_eq_append]
    rw [h] at hw ⊢
    cases hfull : (add ⟨first, init⟩ loss).isFull with
    | true => exact size_add_short_of_full hfull
    | false => exact size_add_short_of_open hw hfull

end Share

/-! ## The size and the octets of all shares -/

theorem first_mem_of_sharesFrom {snLen : SnLen} {share share' : Share} {prev first : Loss}
    {ls : List Loss} (h : share' ∈ sharesFrom snLen share prev ls) (hf : share'.first = some first) :
    share.first = some first ∨ first ∈ ls := by
  induction ls generalizing share prev with
  | nil =>
      obtain rfl := List.mem_singleton.1 h
      exact .inl hf
  | cons loss ls ih =>
      rw [sharesFrom] at h
      split_ifs at h
      · rcases List.mem_cons.1 h with rfl | h
        · exact .inl hf
        · rcases ih h with h | h
          · cases h
          · exact .inr (.tail _ h)
      · rcases ih h with h | h
        · exact .inl h
        · exact .inr (.tail _ h)
      · rcases List.mem_cons.1 h with rfl | h
        · exact .inl hf
        · rcases ih h with h | h
          · exact .inr (Option.some.inj h ▸ .head _)
          · exact .inr (.tail _ h)

theorem wholeAtZero_of_mem {amUl : RlcAmUl} {share : Share}
    (h : share ∈ shares amUl.snLen (losses amUl)) : share.WholeAtZero := by
  intro first hf hs
  have hmem : first ∈ losses amUl := by
    generalize losses amUl = ls at h ⊢
    cases ls with
    | nil => cases h
    | cons loss ls =>
        rcases first_mem_of_sharesFrom h hf with h | h
        · exact Option.some.inj h ▸ .head _
        · exact .tail _ h
  exact soStart_of_whole (mem_losses_iff.1 hmem).2.2 hs

theorem Share.size_le (snLen : SnLen) (share : Share) : share.size snLen ≤ 12 := by
  have hhead : share.headSize snLen ≤ 7 := by
    obtain ⟨first, rest⟩ := share
    cases first with
    | none => exact Nat.zero_le _
    | some first => exact nackSize_le snLen first.isSegment
  have htail : share.tailSize ≤ 5 := by
    unfold Share.tailSize
    split
    · exact Nat.zero_le _
    · split
      · exact fullSize_le _ _
      · exact rangeSize_le _
  rw [Share.size]
  omega

theorem sum_size_le (snLen : SnLen) (l : List Share) :
    (l.map (Share.size snLen)).sum ≤ 12 * l.length := by
  induction l with
  | nil => rfl
  | cons share l ih =>
      have := Share.size_le snLen share
      rw [List.map_cons, List.sum_cons, List.length_cons]
      omega

/-- The octets of the entries with what is counted too much, and the size with what is left out. -/
theorem sum_size_add_short {snLen : SnLen} {l : List Share} (h : ∀ share ∈ l, share.WholeAtZero) :
    (l.map (Share.size snLen)).sum + (l.map (Share.short snLen)).sum =
      ((l.map Share.entry).map (nackOctets snLen)).sum + (l.map Share.long).sum := by
  induction l with
  | nil => rfl
  | cons share l ih =>
      have h1 := @Share.size_add_short snLen share (h share (.head _))
      have h2 := ih fun share' hm => h share' (.tail _ hm)
      simp only [List.map_cons, List.sum_cons] at h2 ⊢
      omega

/-- The announced size against the octets of the STATUS PDU. -/
theorem controlBo_add_short {amUl : RlcAmUl}
    (h : nackEntries amUl.snLen (losses amUl) ≤ RLC_MAX_NACK_CNT) :
    ∃ sta, rlcAmmUlAssembleCntrlInfo amUl = some sta ∧ sta.nackCount ≤ RLC_MAX_NACK_CNT ∧
      sta.controlBo + ((shares amUl.snLen (losses amUl)).map (Share.short amUl.snLen)).sum =
        statusOctets amUl.snLen sta.nacks + ((shares amUl.snLen (losses amUl)).map Share.long).sum := by
  have hlen : (entries amUl.snLen (losses amUl)).length = nackEntries amUl.snLen (losses amUl) :=
    length_entries fun _ => losses_sn_lt
  have hentries : entries amUl.snLen (losses amUl) =
      (shares amUl.snLen (losses amUl)).map Share.entry := entries_eq_shares fun _ => losses_sn_lt
  obtain ⟨sta, hsta, hcount, hnacks, -⟩ := assemble_eq_some (hlen ▸ h)
  refine ⟨sta, hsta, by rw [hcount, hlen]; exact h, ?_⟩
  have hbound := sum_size_le amUl.snLen (shares amUl.snLen (losses amUl))
  have hshares : (shares amUl.snLen (losses amUl)).length ≤ RLC_MAX_NACK_CNT := by
    rw [← List.length_map Share.entry, ← hentries, hlen]
    exact h
  have hsum := @sum_size_add_short amUl.snLen (shares amUl.snLen (losses amUl))
    fun _ => wholeAtZero_of_mem
  simp only [RLC_MAX_NACK_CNT] at hshares
  rw [controlBo_eq_shares hsta, Nat.mod_eq_of_lt (by omega), statusOctets, hnacks, hentries,
    RLC_CNTRL_PDU_FIXED_HDRSZ]
  omega

/-- With room for all NACKs they are all in the STATUS PDU. -/
theorem createStatusPdu_length {pStaPdu : RlcUdxDlStaPdu} {snLen : SnLen} {pduSz : ℤ}
    (hc : pStaPdu.nackCount ≤ RLC_MAX_NACK_CNT) (hp : statusOctets snLen pStaPdu.nacks ≤ pduSz) :
    ∃ mBuf left, rlcAmmCreateStatusPdu snLen pStaPdu pduSz = some (mBuf, left) ∧
      mBuf.length = statusOctets snLen pStaPdu.nacks := by
  have hfixed : (RLC_CNTRL_PDU_FIXED_HDRSZ : ℤ) ≤ pduSz := by
    rw [statusOctets] at hp
    omega
  obtain ⟨mBuf, k, he, hk, hlength, -⟩ := @createStatusPdu_spec snLen _ _ hc hfixed
  have hall : k = pStaPdu.nacks.length := by
    refine le_antisymm hk.le_length (hk.longest _ le_rfl ?_)
    rw [List.take_length]
    exact hp
  rw [hall, List.take_length] at hlength
  exact ⟨mBuf, _, he, hlength⟩

theorem controlBoRight_iff_octets {amUl : RlcAmUl} {sta : RlcUdxDlStaPdu}
    (hsta : rlcAmmUlAssembleCntrlInfo amUl = some sta) (hc : sta.nackCount ≤ RLC_MAX_NACK_CNT) :
    amUl.ControlBoRight ↔ sta.controlBo = statusOctets amUl.snLen sta.nacks := by
  constructor
  · rintro ⟨sta', hsta', grant, hgrant⟩
    obtain rfl : sta = sta' := Option.some.inj (hsta.symm.trans hsta')
    obtain ⟨mBuf, left, he, hlength⟩ :=
      hgrant (max grant (statusOctets amUl.snLen sta.nacks)) (le_max_left _ _)
    obtain ⟨mBuf', left', he', hlength'⟩ := @createStatusPdu_length sta amUl.snLen _ hc
      (le_max_right grant (statusOctets amUl.snLen sta.nacks : ℤ))
    rw [he] at he'
    cases he'
    exact hlength.symm.trans hlength'
  · intro h
    refine ⟨sta, hsta, statusOctets amUl.snLen sta.nacks, fun pduSz hp => ?_⟩
    rw [h]
    exact createStatusPdu_length hc hp

/-- **The announced size is right exactly if the octets left out are as many as those counted
twice.** -/
theorem controlBo_right_iff {amUl : RlcAmUl}
    (h : nackEntries amUl.snLen (losses amUl) ≤ RLC_MAX_NACK_CNT) :
    amUl.ControlBoRight ↔
      ((shares amUl.snLen (losses amUl)).map (Share.short amUl.snLen)).sum =
        ((shares amUl.snLen (losses amUl)).map Share.long).sum := by
  obtain ⟨sta, hsta, hc, hsum⟩ := controlBo_add_short h
  rw [controlBoRight_iff_octets hsta hc]
  omega

/-- SN 0 is lost, and of SN 1 the first byte. -/
def lostFirstByte : RlcAmUl where
  snLen := .bits12
  rxNext := 0
  rxHighestStatus := 2
  recBufLst k :=
    if k = 1 then
      [{ sn := 1
         segLst := [⟨.last, 1, 9⟩]
         ordered := by simp
         offsets := by simp [RLC_ALL_BYTES_MISSING] }]
    else []
  rxNext_lt := SnLen.modulus_pos .bits12
  rxHighestStatus_lt := by decide

/-- SN 0, the bytes from 5 to 9 of SN 1, SN 2 and SN 3 are lost. -/
def lostMiddle : RlcAmUl where
  snLen := .bits12
  rxNext := 0
  rxHighestStatus := 4
  recBufLst k :=
    if k = 1 then
      [{ sn := 1
         segLst := [⟨.first, 0, 4⟩, ⟨.last, 10, 14⟩]
         ordered := by simp
         offsets := by simp [RLC_ALL_BYTES_MISSING] }]
    else []
  rxNext_lt := SnLen.modulus_pos .bits12
  rxHighestStatus_lt := by decide

theorem controlBo_right_lostMiddle : lostMiddle.ControlBoRight :=
  (controlBo_right_iff (by decide +kernel)).mpr (by decide +kernel)

/-- Ten octets are needed for the STATUS PDU, and six are announced. -/
theorem controlBo_wrong :
    nackEntries lostFirstByte.snLen (losses lostFirstByte) ≤ RLC_MAX_NACK_CNT ∧
      ¬ lostFirstByte.ControlBoRight := by
  refine ⟨by decide +kernel, fun h => ?_⟩
  have hsome : (rlcAmmUlAssembleCntrlInfo lostFirstByte).isSome := by decide +kernel
  obtain ⟨sta, hsta⟩ := Option.isSome_iff_exists.1 hsome
  have hsize : ((rlcAmmUlAssembleCntrlInfo lostFirstByte).map fun sta =>
      (sta.nackCount, sta.controlBo, statusOctets .bits12 sta.nacks)) = some (1, 6, 10) := by
    decide +kernel
  rw [hsta, Option.map_some, Option.some.injEq, Prod.mk.injEq, Prod.mk.injEq] at hsize
  obtain ⟨hcount, hbo, hoctets⟩ := hsize
  rw [controlBoRight_iff_octets hsta (by rw [hcount]; decide), hbo] at h
  exact absurd (h.trans hoctets) (by decide)

end OaiCu.OduRlc
