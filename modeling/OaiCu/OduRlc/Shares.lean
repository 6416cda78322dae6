import OaiCu.OduRlc.StatusPdu

/-!
# The bounds of the STATUS

`rlcAmmUlAssembleCntrlInfo` compares `nackCnt` with the size of the array and increments
`nackCount`, so nothing stops it at the end of the array. It stays inside exactly if the losses
take at most `RLC_MAX_NACK_CNT` entries (`staysInside_iff`); the STATUS PDU made from the
structure stays inside of its buffer and of the grant in any case.
-/

namespace OaiCu.OduRlc

/-! ## How many entries the losses take -/

/-- The entries that the losses behind `prev` take. The entry in use counts `n` SNs, or none if
it is the one behind a full entry, which any next SN goes to. -/
def entriesAfter (snLen : SnLen) : Loss → ℕ → List Loss → ℕ
  | _, _, [] => 0
  | prev, n, loss :: ls =>
    if joins snLen prev loss ∨ n = 0 ∧ (prev.sn + 1) % snLen.modulus = loss.sn then
      if max n 1 + 1 = 255 then 1 + entriesAfter snLen loss 0 ls
      else entriesAfter snLen loss (max n 1 + 1) ls
    else 1 + entriesAfter snLen loss 1 ls

/-- The entries that the losses take. -/
def nackEntries (snLen : SnLen) : List Loss → ℕ
  | [] => 0
  | loss :: ls => 1 + entriesAfter snLen loss 1 ls

/-- The entry in use is the one that `entriesAfter` counts `n` SNs for. -/
def InUse (cur : RlcNackInfo) (prev : Loss) (n : ℕ) : Prop :=
  (n = 0 ∧ cur = {}) ∨ (EndsWith cur prev ∧ n = cur.count)

theorem InUse.count {cur : RlcNackInfo} {prev : Loss} {n : ℕ} (h : InUse cur prev n) :
    cur.count = max n 1 := by
  rcases h with ⟨rfl, rfl⟩ | ⟨-, rfl⟩
  · rfl
  · exact (max_eq_left (Nat.le_max_right _ _)).symm

theorem InUse.startsEntry_eq {snLen : SnLen} {cur : RlcNackInfo} {prev : Loss} {n : ℕ}
    (h : InUse cur prev n) (hp : prev.sn < snLen.modulus) (loss : Loss) :
    startsEntry snLen.snModMask cur prev.sn loss = true ↔
      ¬ (joins snLen prev loss ∨ n = 0 ∧ (prev.sn + 1) % snLen.modulus = loss.sn) := by
  rcases h with ⟨rfl, rfl⟩ | ⟨he, rfl⟩
  · rw [startsEntry_clear hp]
    by_cases e : (prev.sn + 1) % snLen.modulus = loss.sn
    · simp [e]
    · have : joins snLen prev loss = false := by simp [joins, e]
      simp [e, this]
  · have hc : cur.count ≠ 0 := by
      have : 1 ≤ cur.count := Nat.le_max_right _ _
      omega
    rw [OduRlc.startsEntry_eq he hp]
    simp [hc]

theorem length_entriesFrom {snLen : SnLen} {cur : RlcNackInfo} {prev : Loss} {n : ℕ}
    (h : InUse cur prev n) {ls : List Loss} (hls : ∀ loss ∈ prev :: ls, loss.sn < snLen.modulus) :
    (entriesFrom snLen cur prev.sn ls).length = 1 + entriesAfter snLen prev n ls := by
  induction ls generalizing cur prev n with
  | nil => rfl
  | cons loss ls ih =>
    have hs := h.startsEntry_eq (hls prev (.head _)) loss
    have hls' : ∀ l ∈ loss :: ls, l.sn < snLen.modulus := fun l hl => hls l (.tail _ hl)
    have hj : InUse (cur.countSn.moveEnd loss) loss (max n 1 + 1) := by
      refine .inr ⟨endsWith_join cur loss, ?_⟩
      rw [← h.count]
      exact (join_count cur loss).symm
    rw [entriesFrom, entriesAfter, countSn_nackRange, h.count]
    by_cases hst : startsEntry snLen.snModMask cur prev.sn loss = true
    · rw [if_pos hst, if_neg (hs.1 hst), List.length_cons,
        ih (.inr ⟨(entryOf_entry loss).ends, (entryOf_entry loss).count.symm⟩) hls']
      omega
    · rw [if_neg hst, if_pos (not_not.1 fun hc => hst (hs.2 hc))]
      split_ifs with hr
      · rw [List.length_cons, ih (.inl ⟨rfl, rfl⟩) hls']
        omega
      · exact ih hj hls'

theorem length_entries {snLen : SnLen} {ls : List Loss}
    (hls : ∀ loss ∈ ls, loss.sn < snLen.modulus) :
    (entries snLen ls).length = nackEntries snLen ls := by
  cases ls with
  | nil => rfl
  | cons loss ls =>
    exact length_entriesFrom (.inr ⟨(entryOf_entry loss).ends, (entryOf_entry loss).count.symm⟩) hls

theorem entriesAfter_append_le (snLen : SnLen) (prev : Loss) (n : ℕ) (ls ls' : List Loss) :
    entriesAfter snLen prev n ls ≤ entriesAfter snLen prev n (ls ++ ls') := by
  induction ls generalizing prev n with
  | nil => exact Nat.zero_le _
  | cons loss ls ih =>
    rw [List.cons_append, entriesAfter, entriesAfter]
    split_ifs
    · exact Nat.add_le_add_left (ih loss 0) 1
    · exact ih loss _
    · exact Nat.add_le_add_left (ih loss 1) 1

/-- More losses do not take fewer entries. -/
theorem nackEntries_append_le (snLen : SnLen) (ls ls' : List Loss) :
    nackEntries snLen ls ≤ nackEntries snLen (ls ++ ls') := by
  cases ls with
  | nil => exact Nat.zero_le _
  | cons loss ls => exact Nat.add_le_add_left (entriesAfter_append_le snLen loss 1 ls ls') 1

/-! ## The scan inside of its array -/

/-- The losses of the first `n` SNs of the scan. -/
def lossesUpTo (amUl : RlcAmUl) (n : ℕ) : List Loss :=
  (List.range n).flatMap fun i => lossesSn (amUl.snAt i) (amUl.recBuf (amUl.snAt i))

/-- The first SN with a loss for which the array has no place, or `rxHighestStatus`. -/
def firstUnreported (amUl : RlcAmUl) : ℕ :=
  amUl.snAt (((List.range amUl.high).find? fun i =>
    RLC_MAX_NACK_CNT < nackEntries amUl.snLen (lossesUpTo amUl (i + 1))).getD amUl.high)

/-- The structure is built inside of its array, with the first SN that is not reported as its
ACK_SN, and for every grant the STATUS PDU is built inside of its buffer and of the grant. -/
def RlcAmUl.StaysInside (amUl : RlcAmUl) : Prop :=
  ∃ sta, rlcAmmUlAssembleCntrlInfo amUl = some sta ∧ sta.nackCount ≤ RLC_MAX_NACK_CNT ∧
    sta.ackSn = firstUnreported amUl ∧
    ∀ snLen cntrlBo pduSz, ∃ mBuf left,
      rlcAmmDlAssembleCntrlInfo snLen sta cntrlBo pduSz = some (mBuf, left) ∧
        ∀ octets, mBuf = some octets → (octets.length : ℤ) ≤ pduSz

theorem firstUnreported_eq {amUl : RlcAmUl}
    (h : nackEntries amUl.snLen (losses amUl) ≤ RLC_MAX_NACK_CNT) :
    firstUnreported amUl = amUl.rxHighestStatus := by
  have hnone : (List.range amUl.high).find? (fun i =>
      RLC_MAX_NACK_CNT < nackEntries amUl.snLen (lossesUpTo amUl (i + 1))) = none := by
    refine List.find?_eq_none.2 fun i hi => ?_
    obtain ⟨n, hn⟩ := Nat.exists_eq_add_of_le (Nat.succ_le_of_lt (List.mem_range.1 hi))
    have hle : nackEntries amUl.snLen (lossesUpTo amUl (i + 1)) ≤
        nackEntries amUl.snLen (losses amUl) := by
      rw [losses, hn, List.range_add, List.flatMap_append]
      exact nackEntries_append_le amUl.snLen _ _
    simpa using hle.trans h
  rw [firstUnreported, hnone, Option.getD_none]
  exact RlcAmUl.snAt_pos amUl.rxHighestStatus_lt

/-- **The STATUS stays inside of its arrays exactly if the losses take no more entries than the
array has.** -/
theorem staysInside_iff (amUl : RlcAmUl) :
    amUl.StaysInside ↔ nackEntries amUl.snLen (losses amUl) ≤ RLC_MAX_NACK_CNT := by
  have hlen : (entries amUl.snLen (losses amUl)).length = nackEntries amUl.snLen (losses amUl) :=
    length_entries fun _ => losses_sn_lt
  constructor
  · rintro ⟨sta, hsta, -⟩
    by_contra hc
    rw [← hlen] at hc
    rw [assemble_eq_none (not_le.1 hc)] at hsta
    cases hsta
  · intro h
    obtain ⟨sta, h1, h2, -, h4⟩ := assemble_eq_some (hlen ▸ h)
    have hcount : sta.nackCount ≤ RLC_MAX_NACK_CNT := by
      rw [h2, hlen]
      exact h
    refine ⟨sta, h1, hcount, h4.trans (firstUnreported_eq h).symm, fun snLen cntrlBo pduSz => ?_⟩
    exact dlAssembleCntrlInfo_inside hcount snLen cntrlBo pduSz

/-- Every other SN up to SN 201 is received. -/
def lostAlternating : RlcAmUl where
  snLen := .bits12
  rxNext := 0
  rxHighestStatus := 202
  recBufLst k :=
    if k % 2 = 1 ∧ k < 202 then
      [{ sn := k
         ordered := RlcAmRecBuf.nil_ordered
         offsets := RlcAmRecBuf.nil_offsets }]
    else []
  rxNext_lt := SnLen.modulus_pos .bits12
  rxHighestStatus_lt := by decide

/-- The 101st entry is written behind the array. -/
theorem array_overrun : ¬ lostAlternating.StaysInside := by
  have h : rlcAmmUlAssembleCntrlInfo lostAlternating = none := by decide +kernel
  rintro ⟨sta, hsta, -⟩
  rw [h] at hsta
  cases hsta

/-!
## The losses of each entry

`shares` says which losses go to which place of the array: the loss a place is filled for, if
there is one, and the losses that join it. The entries are made from the shares one by one
(`entries_eq_shares`), and so is the size that `rlcAmmUlSetNackInfo` adds up
(`controlBo_eq_shares`).
-/

/-- The losses that one place of the array takes. The place behind a full one is used as it is
and has no first loss. -/
structure Share where
  first : Option Loss
  rest : List Loss
deriving DecidableEq, Repr

namespace Share

/-- The place behind a full one, before any loss goes to it. -/
def clear : Share := ⟨none, []⟩

def ofLoss (loss : Loss) : Share := ⟨some loss, []⟩

def add (share : Share) (loss : Loss) : Share :=
  { share with rest := share.rest ++ [loss] }

/-- The range counts one SN for a place without a first loss too. -/
def count (share : Share) : ℕ := share.rest.length + 1

def entry (share : Share) : RlcNackInfo :=
  share.rest.foldl RlcNackInfo.join (share.first.elim {} Loss.entry)

end Share

/-- The shares of the losses to come; `share` is the one in use and `prev` the last loss. -/
def sharesFrom (snLen : SnLen) : Share → Loss → List Loss → List Share
  | share, _, [] => [share]
  | share, prev, loss :: ls =>
    if joins snLen prev loss ∨ share = .clear ∧ (prev.sn + 1) % snLen.modulus = loss.sn then
      if (share.add loss).count = 255 then share.add loss :: sharesFrom snLen .clear loss ls
      else sharesFrom snLen (share.add loss) loss ls
    else share :: sharesFrom snLen (.ofLoss loss) loss ls

/-- The shares of all losses of the scan. -/
def shares (snLen : SnLen) : List Loss → List Share
  | [] => []
  | loss :: ls => sharesFrom snLen (.ofLoss loss) loss ls

/-! ## The entries of the shares -/

namespace Share

variable (share : Share) (loss : Loss)

@[simp] theorem entry_clear : clear.entry = {} := rfl

@[simp] theorem entry_ofLoss : (ofLoss loss).entry = loss.entry := rfl

@[simp] theorem count_add : (share.add loss).count = share.count + 1 := by
  simp [count, add]

theorem entry_add : (share.add loss).entry = share.entry.join loss := by
  simp [entry, add]

theorem add_ne_clear : share.add loss ≠ clear := by
  simp [add, clear]

theorem entry_count : share.entry.count = share.count := by
  obtain ⟨first, rest⟩ := share
  induction rest using List.reverseRecOn with
  | nil => cases first <;> rfl
  | append_singleton rest loss ih =>
      have h := entry_add ⟨first, rest⟩ loss
      rw [add] at h
      rw [h, join_count, ih]
      simp [count]

/-- The entry of the share ends where `prev` does, unless nothing is in it yet. -/
def EndsAt (prev : Loss) : Prop :=
  share = clear ∨ (share ≠ clear ∧ EndsWith share.entry prev)

variable {share loss}

theorem endsAt_clear (prev : Loss) : clear.EndsAt prev := .inl rfl

theorem endsAt_ofLoss (loss : Loss) : (ofLoss loss).EndsAt loss :=
  .inr ⟨by simp [ofLoss, clear], (entryOf_entry loss).ends⟩

theorem endsAt_add (share : Share) (loss : Loss) : (share.add loss).EndsAt loss := by
  refine .inr ⟨add_ne_clear share loss, ?_⟩
  rw [entry_add]
  exact endsWith_join share.entry loss

theorem EndsAt.startsEntry_eq {snLen : SnLen} {prev : Loss} (h : share.EndsAt prev)
    (hp : prev.sn < snLen.modulus) (loss : Loss) :
    startsEntry snLen.snModMask share.entry prev.sn loss = true ↔
      ¬ (joins snLen prev loss ∨ share = .clear ∧ (prev.sn + 1) % snLen.modulus = loss.sn) := by
  have hu : InUse share.entry prev (if share = .clear then 0 else share.count) := by
    rcases h with rfl | ⟨hne, he⟩
    · exact .inl ⟨rfl, rfl⟩
    · exact .inr ⟨he, by rw [if_neg hne, entry_count]⟩
  have hz : (if share = .clear then 0 else share.count) = 0 ↔ share = .clear := by
    split_ifs with hc <;> simp [hc, count]
  rw [hu.startsEntry_eq hp, hz]

end Share

/-- What a loss does to the share in use: it closes it, fills it up or joins it. -/
theorem share_cases {snLen : SnLen} {share : Share} {prev : Loss} (h : share.EndsAt prev)
    (hp : prev.sn < snLen.modulus) (loss : Loss) (ls : List Loss) :
    (startsEntry snLen.snModMask share.entry prev.sn loss = true ∧
      sharesFrom snLen share prev (loss :: ls) =
        share :: sharesFrom snLen (.ofLoss loss) loss ls) ∨
    (startsEntry snLen.snModMask share.entry prev.sn loss = false ∧
      share.entry.countSn.nackRange = (share.add loss).count ∧
      sharesFrom snLen share prev (loss :: ls) =
        if (share.add loss).count = 255 then share.add loss :: sharesFrom snLen .clear loss ls
        else sharesFrom snLen (share.add loss) loss ls) := by
  have hs := h.startsEntry_eq hp loss
  by_cases hst : startsEntry snLen.snModMask share.entry prev.sn loss = true
  · exact .inl ⟨hst, by rw [sharesFrom, if_neg (hs.1 hst)]⟩
  · refine .inr ⟨Bool.eq_false_iff.2 hst, ?_, ?_⟩
    · rw [countSn_nackRange, Share.entry_count, Share.count_add]
    · rw [sharesFrom, if_pos (not_not.1 fun hc => hst (hs.2 hc))]

theorem entriesFrom_eq_shares {snLen : SnLen} {share : Share} {prev : Loss} {ls : List Loss}
    (h : share.EndsAt prev) (hls : ∀ loss ∈ prev :: ls, loss.sn < snLen.modulus) :
    entriesFrom snLen share.entry prev.sn ls = (sharesFrom snLen share prev ls).map Share.entry := by
  induction ls generalizing share prev with
  | nil => rfl
  | cons loss ls ih =>
      have hls' : ∀ l ∈ loss :: ls, l.sn < snLen.modulus := fun l hl => hls l (.tail _ hl)
      have hadd : share.entry.countSn.moveEnd loss = (share.add loss).entry :=
        (Share.entry_add share loss).symm
      rw [entriesFrom, hadd]
      rcases share_cases h (hls prev (.head _)) loss ls with ⟨hst, e⟩ | ⟨hst, hn, e⟩
      · rw [if_pos hst, e, List.map_cons, ← ih (Share.endsAt_ofLoss loss) hls']
        rfl
      · rw [if_neg (by simp [hst]), hn, e]
        split
        · rw [List.map_cons, ← ih (Share.endsAt_clear loss) hls']
          rfl
        · exact ih (Share.endsAt_add share loss) hls'

/-- **The entries are those of the shares.** -/
theorem entries_eq_shares {snLen : SnLen} {ls : List Loss}
    (hls : ∀ loss ∈ ls, loss.sn < snLen.modulus) :
    entries snLen ls = (shares snLen ls).map Share.entry := by
  cases ls with
  | nil => rfl
  | cons loss ls => exact entriesFrom_eq_shares (Share.endsAt_ofLoss loss) hls

/-! ## The size of the shares -/

/-- The bytes that the loss which brings the range to 255 adds. -/
def fullSize (nackInfo : RlcNackInfo) (loss : Loss) : ℕ :=
  if nackInfo.isSegment then 1 else if loss.isSegment then 5 else 0

/-- The bytes that the losses to come add; `cur` is the entry in use and `prev` the last SN. -/
def sizeFrom (snLen : SnLen) (cur : RlcNackInfo) (prev : ℕ) : List Loss → ℕ
  | [] => rangeSize cur
  | loss :: ls =>
    if startsEntry snLen.snModMask cur prev loss then
      rangeSize cur + nackSize snLen loss.isSegment + sizeFrom snLen loss.entry loss.sn ls
    else if cur.countSn.nackRange = 255 then fullSize cur loss + sizeFrom snLen {} loss.sn ls
    else sizeFrom snLen (cur.countSn.moveEnd loss) loss.sn ls

/-- What one call adds to the size. -/
def sizeStep (snLen : SnLen) (cur : RlcNackInfo) (prev : ℕ) (loss : Loss) : ℕ :=
  if startsEntry snLen.snModMask cur prev loss then rangeSize cur + nackSize snLen loss.isSegment
  else if cur.countSn.nackRange = 255 then fullSize cur loss
  else 0

theorem setNackInfo_size {snLen : SnLen} {loss : Loss} {c c' : Scan} {pre : List RlcNackInfo}
    {cur : RlcNackInfo} (h : c.statusPdu.Holds pre cur)
    (hc : rlcAmmUlSetNackInfo snLen loss c = some c') :
    c'.staPduEncSize = (c.staPduEncSize + sizeStep snLen cur c.prevNackSn loss) % 2 ^ 16 := by
  have hseg : cur.countSn.isSegment = cur.isSegment := rfl
  simp only [rlcAmmUlSetNackInfo, h.read, Option.bind_eq_bind, Option.bind_some, hseg] at hc
  rw [sizeStep]
  split at hc
  case isTrue hs =>
    obtain ⟨_, -, hc⟩ := Option.bind_eq_some_iff.1 hc
    rw [← Option.some.inj hc, if_pos hs, Nat.add_assoc]
  case isFalse hs =>
    obtain ⟨_, -, hc⟩ := Option.bind_eq_some_iff.1 hc
    rw [← Option.some.inj hc, if_neg hs]
    rfl

/-- The size that the scan ends with. -/
theorem finish_controlBo {amUl : RlcAmUl} {ls : List Loss}
    (hls : ∀ loss ∈ ls, loss.sn < amUl.snLen.modulus) {c : Scan} {pre : List RlcNackInfo}
    {cur : RlcNackInfo} (h : c.statusPdu.Holds pre cur) (hp : c.prevNackSn ≠ noNackSn)
    {sta : RlcUdxDlStaPdu} (hsta : (setNackInfos amUl.snLen ls c).bind (finishStatus amUl) = some sta) :
    sta.controlBo = (c.staPduEncSize + sizeFrom amUl.snLen cur c.prevNackSn ls) % 2 ^ 16 := by
  induction ls generalizing c pre cur with
  | nil =>
      simp only [setNackInfos_nil, Option.bind_some, finishStatus, h.read, Option.bind_eq_bind] at hsta
      rw [← Option.some.inj hsta]
      rfl
  | cons loss ls ih =>
      have hls' : ∀ l ∈ ls, l.sn < amUl.snLen.modulus := fun l hl => hls l (.tail _ hl)
      have hsn : loss.sn ≠ noNackSn := sn_ne_noNackSn (hls loss (.head _))
      rw [setNackInfos_cons] at hsta
      rw [sizeFrom]
      rcases setNackInfo_cases amUl.snLen h hp loss with
        ⟨hs, ⟨-, e⟩ | ⟨c', e, hc, hh⟩⟩ | ⟨hs, c', e, hc, hh⟩
      · rw [e] at hsta
        cases hsta
      · have hsize := setNackInfo_size h e
        rw [e, Option.bind_some] at hsta
        rw [ih hls' hh (hc ▸ hsn) hsta, hsize, sizeStep, if_pos hs, if_pos hs, hc, Nat.mod_add_mod,
          Nat.add_assoc]
      · have hsize := setNackInfo_size h e
        rw [e, Option.bind_some] at hsta
        rw [sizeStep, if_neg (by simp [hs])] at hsize
        rw [if_neg (by simp [hs])]
        split
        case isTrue hr =>
          rw [if_pos hr] at hh hsize
          rcases hh with ⟨hge, hcnt⟩ | hh
          · rw [finishStatus_eq_none (by omega) ls] at hsta
            cases hsta
          · rw [ih hls' hh (hc ▸ hsn) hsta, hsize, hc, Nat.mod_add_mod, Nat.add_assoc]
        case isFalse hr =>
          rw [if_neg hr] at hh hsize
          rw [ih hls' hh (hc ▸ hsn) hsta, hsize, hc, Nat.add_zero, Nat.mod_add_mod]

namespace Share

/-- What is added when the place is filled. -/
def headSize (snLen : SnLen) (share : Share) : ℕ :=
  share.first.elim 0 fun loss => nackSize snLen loss.isSegment

/-- What is added for the range, when the next entry is started or the range is full. -/
def tailSize (share : Share) : ℕ :=
  match share.rest.getLast? with
  | none => 0
  | some loss =>
    if share.count = 255 then fullSize (entry { share with rest := share.rest.dropLast }) loss
    else rangeSize share.entry

/-- What is added to the size for the share. -/
def size (snLen : SnLen) (share : Share) : ℕ := share.headSize snLen + share.tailSize

@[simp] theorem headSize_clear (snLen : SnLen) : clear.headSize snLen = 0 := rfl

@[simp] theorem headSize_ofLoss (snLen : SnLen) (loss : Loss) :
    (ofLoss loss).headSize snLen = nackSize snLen loss.isSegment := rfl

@[simp] theorem headSize_add (snLen : SnLen) (share : Share) (loss : Loss) :
    (share.add loss).headSize snLen = share.headSize snLen := rfl

theorem tailSize_of_lt {share : Share} (h : share.count < 255) :
    share.tailSize = OduRlc.rangeSize share.entry := by
  obtain ⟨first, rest⟩ := share
  rw [tailSize]
  cases hl : rest.getLast? with
  | none =>
      obtain rfl := List.getLast?_eq_none_iff.1 hl
      cases first <;> rfl
  | some loss => exact if_neg h.ne

theorem tailSize_add {share : Share} {loss : Loss} (h : (share.add loss).count = 255) :
    (share.add loss).tailSize = fullSize share.entry loss := by
  simp only [tailSize, h, if_true]
  simp [add]

end Share

theorem sizeFrom_eq_shares {snLen : SnLen} {share : Share} {prev : Loss} {ls : List Loss}
    (h : share.EndsAt prev) (hls : ∀ loss ∈ prev :: ls, loss.sn < snLen.modulus)
    (hn : share.count < 255) :
    share.headSize snLen + sizeFrom snLen share.entry prev.sn ls =
      ((sharesFrom snLen share prev ls).map (Share.size snLen)).sum := by
  induction ls generalizing share prev with
  | nil => simp [sizeFrom, sharesFrom, Share.size, Share.tailSize_of_lt hn]
  | cons loss ls ih =>
      have hls' : ∀ l ∈ loss :: ls, l.sn < snLen.modulus := fun l hl => hls l (.tail _ hl)
      have hadd : share.entry.countSn.moveEnd loss = (share.add loss).entry :=
        (Share.entry_add share loss).symm
      have hcount := Share.count_add share loss
      rw [sizeFrom, hadd]
      rcases share_cases h (hls prev (.head _)) loss ls with ⟨hst, e⟩ | ⟨hst, hr, e⟩
      · have ih' := ih (Share.endsAt_ofLoss loss) hls' (show 1 < 255 by decide)
        rw [Share.headSize_ofLoss, Share.entry_ofLoss] at ih'
        rw [if_pos hst, e, List.map_cons, List.sum_cons, ← ih', Share.size, Share.tailSize_of_lt hn]
        omega
      · rw [if_neg (by simp [hst]), hr, e]
        split
        case isTrue hfull =>
          have ih' := ih (Share.endsAt_clear loss) hls' (by decide)
          rw [Share.headSize_clear, Share.entry_clear] at ih'
          rw [List.map_cons, List.sum_cons, ← ih', Share.size, Share.tailSize_add hfull,
            Share.headSize_add]
          omega
        case isFalse hfull =>
          exact ih (Share.endsAt_add share loss) hls' (by omega)

/-- **The size is that of the shares**, on 16 bits. -/
theorem controlBo_eq_shares {amUl : RlcAmUl} {sta : RlcUdxDlStaPdu}
    (hsta : rlcAmmUlAssembleCntrlInfo amUl = some sta) :
    sta.controlBo =
      (3 + ((shares amUl.snLen (losses amUl)).map (Share.size amUl.snLen)).sum) % 2 ^ 16 := by
  rw [assemble_eq] at hsta
  have hlt : ∀ loss ∈ losses amUl, loss.sn < amUl.snLen.modulus := fun _ => losses_sn_lt
  generalize losses amUl = ls at hsta hlt ⊢
  cases ls with
  | nil =>
      rw [← Option.some.inj hsta]
      rfl
  | cons loss ls =>
      obtain ⟨c, e, hc, hh⟩ := setNackInfo_first amUl.snLen loss
      have hls : ∀ l ∈ ls, l.sn < amUl.snLen.modulus := fun l hl => hlt l (.tail _ hl)
      have hfirst := setNackInfo_size RlcUdxDlStaPdu.holds_clear e
      have hstep : sizeStep amUl.snLen {} noNackSn loss = nackSize amUl.snLen loss.isSegment := by
        simp [sizeStep, startsEntry, rangeSize]
      have hsum := sizeFrom_eq_shares (Share.endsAt_ofLoss loss) hlt (show 1 < 255 by decide)
      rw [Share.headSize_ofLoss, Share.entry_ofLoss] at hsum
      rw [setNackInfos_cons, e, Option.bind_some] at hsta
      rw [finish_controlBo hls hh (hc ▸ sn_ne_noNackSn (hlt loss (.head _))) hsta, hfirst, hstep, hc,
        shares, ← hsum, Nat.mod_add_mod, Nat.add_assoc]

end OaiCu.OduRlc
