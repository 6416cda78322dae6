import OaiCu.OduRlc.Losses
import Mathlib.Data.List.SplitBy

/-!
# The entries of the STATUS

`entriesFrom` is the list of the entries that the losses take, with no bound on its length. The
array holds a prefix of places filled in this order and cleared places behind, so the structure
is built exactly if the list is not longer than the array (`assemble_eq_some`,
`assemble_eq_none`).

An entry that has reached a range of 255 is left, but its successor has no SN of its own: the
next place of the array is used as it is.
-/

namespace OaiCu.OduRlc

/-- The entries for the losses to come; `cur` is the entry in use and `prev` the last SN. -/
def entriesFrom (snLen : SnLen) (cur : RlcNackInfo) (prev : ℕ) : List Loss → List RlcNackInfo
  | [] => [cur]
  | loss :: ls =>
    if startsEntry snLen.snModMask cur prev loss then
      cur :: entriesFrom snLen loss.entry loss.sn ls
    else if cur.countSn.nackRange = 255 then
      cur.countSn.moveEnd loss :: entriesFrom snLen {} loss.sn ls
    else entriesFrom snLen (cur.countSn.moveEnd loss) loss.sn ls

/-- The entries for all losses of the scan. -/
def entries (snLen : SnLen) : List Loss → List RlcNackInfo
  | [] => []
  | loss :: ls => entriesFrom snLen loss.entry loss.sn ls

theorem entriesFrom_ne_nil (snLen : SnLen) (cur : RlcNackInfo) (prev : ℕ) (ls : List Loss) :
    entriesFrom snLen cur prev ls ≠ [] := by
  fun_induction entriesFrom snLen cur prev ls <;> simp_all

/-! ## The array -/

/-- The places before `nackCount` hold `pre`, the place at `nackCount` holds `cur`, and those
behind are clear. -/
structure RlcUdxDlStaPdu.Holds (statusPdu : RlcUdxDlStaPdu) (pre : List RlcNackInfo)
    (cur : RlcNackInfo) : Prop where
  nackCount : statusPdu.nackCount = pre.length
  nackInfo : statusPdu.nackInfo.toList =
    pre ++ cur :: List.replicate (RLC_MAX_NACK_CNT - pre.length - 1) {}

namespace RlcUdxDlStaPdu

variable {statusPdu : RlcUdxDlStaPdu} {pre : List RlcNackInfo} {cur : RlcNackInfo}

theorem holds_clear : ({} : RlcUdxDlStaPdu).Holds [] {} := ⟨rfl, rfl⟩

theorem Holds.length_lt (h : statusPdu.Holds pre cur) : pre.length < RLC_MAX_NACK_CNT := by
  have := congrArg List.length h.nackInfo
  simp only [Vector.length_toList, List.length_append, List.length_cons] at this
  omega

theorem Holds.read (h : statusPdu.Holds pre cur) :
    statusPdu.nackInfo[statusPdu.nackCount]? = some cur := by
  rw [← Vector.getElem?_toList, h.nackInfo, h.nackCount]
  simp

theorem store_toList (statusPdu : RlcUdxDlStaPdu) {i : ℕ} (hi : i < RLC_MAX_NACK_CNT) (nack : RlcNackInfo) :
    ∃ statusPdu', statusPdu.store i nack = some statusPdu' ∧
      statusPdu'.nackCount = statusPdu.nackCount ∧
      statusPdu'.nackInfo.toList = statusPdu.nackInfo.toList.set i nack :=
  ⟨_, dif_pos hi, rfl, Vector.toList_set hi⟩

/-- The entry in use is written. -/
theorem Holds.store_cur (h : statusPdu.Holds pre cur) (nack : RlcNackInfo) :
    ∃ statusPdu', statusPdu.store statusPdu.nackCount nack = some statusPdu' ∧
      statusPdu'.Holds pre nack := by
  obtain ⟨statusPdu', h1, h2, h3⟩ :=
    store_toList statusPdu (h.nackCount ▸ h.length_lt) nack
  refine ⟨statusPdu', h1, h2.trans h.nackCount, ?_⟩
  rw [h3, h.nackInfo, h.nackCount, List.set_append_right _ _ le_rfl]
  simp

/-- The array with the place behind the entry in use as the next one. -/
theorem Holds.next (h : statusPdu.Holds pre cur) (hlt : pre.length + 1 < RLC_MAX_NACK_CNT) :
    ({ statusPdu with nackCount := statusPdu.nackCount + 1 } : RlcUdxDlStaPdu).Holds
      (pre ++ [cur]) {} := by
  refine ⟨by simp [h.nackCount], ?_⟩
  have e : RLC_MAX_NACK_CNT - pre.length - 1 = (RLC_MAX_NACK_CNT - (pre ++ [cur]).length - 1) + 1 := by
    simp only [List.length_append, List.length_singleton]
    omega
  rw [h.nackInfo, e, List.replicate_succ, List.append_assoc, List.singleton_append]

theorem store_eq_none {i : ℕ} (hi : RLC_MAX_NACK_CNT ≤ i) (nack : RlcNackInfo) :
    statusPdu.store i nack = none := dif_neg (by omega)

end RlcUdxDlStaPdu

/-- With the count past the array the next access is outside of it. -/
theorem finishStatus_eq_none {amUl : RlcAmUl} {c : Scan}
    (h : RLC_MAX_NACK_CNT ≤ c.statusPdu.nackCount) (ls : List Loss) :
    (setNackInfos amUl.snLen ls c).bind (finishStatus amUl) = none := by
  have hr : c.statusPdu.nackInfo[c.statusPdu.nackCount]? = none := by simpa using h
  cases ls with
  | nil => simp [finishStatus, hr]
  | cons loss ls => simp [rlcAmmUlSetNackInfo, hr]

/-- What `rlcAmmUlSetNackInfo` does to the array, case by case. -/
theorem setNackInfo_cases (snLen : SnLen) {c : Scan} {pre : List RlcNackInfo} {cur : RlcNackInfo}
    (h : c.statusPdu.Holds pre cur) (hp : c.prevNackSn ≠ noNackSn) (loss : Loss) :
    (startsEntry snLen.snModMask cur c.prevNackSn loss = true ∧
      (RLC_MAX_NACK_CNT ≤ pre.length + 1 ∧ rlcAmmUlSetNackInfo snLen loss c = none ∨
        ∃ c', rlcAmmUlSetNackInfo snLen loss c = some c' ∧ c'.prevNackSn = loss.sn ∧
          c'.statusPdu.Holds (pre ++ [cur]) loss.entry)) ∨
    (startsEntry snLen.snModMask cur c.prevNackSn loss = false ∧
      ∃ c', rlcAmmUlSetNackInfo snLen loss c = some c' ∧ c'.prevNackSn = loss.sn ∧
        if cur.countSn.nackRange = 255 then
          RLC_MAX_NACK_CNT ≤ pre.length + 1 ∧ c'.statusPdu.nackCount = pre.length + 1 ∨
            c'.statusPdu.Holds (pre ++ [cur.countSn.moveEnd loss]) {}
        else c'.statusPdu.Holds pre (cur.countSn.moveEnd loss)) := by
  cases hs : startsEntry snLen.snModMask cur c.prevNackSn loss with
  | true =>
    refine .inl ⟨rfl, ?_⟩
    simp only [rlcAmmUlSetNackInfo, h.read, Option.bind_eq_bind, Option.bind_some, hs, if_true, hp,
      ne_eq, not_false_eq_true]
    rcases Nat.lt_or_ge (pre.length + 1) RLC_MAX_NACK_CNT with hlt | hge
    · obtain ⟨statusPdu', h1, h2⟩ := (h.next hlt).store_cur loss.entry
      have h3 : c.statusPdu.store (c.statusPdu.nackCount + 1) loss.entry =
          some { statusPdu' with nackCount := c.statusPdu.nackCount } := by
        simp only [RlcUdxDlStaPdu.store] at h1 ⊢
        split at h1
        case isFalse => cases h1
        case isTrue hi =>
          rw [dif_pos hi, ← Option.some.inj h1]
      refine .inr ⟨_, by rw [h3]; rfl, rfl, ?_, h2.nackInfo⟩
      simp [h.nackCount]
    · exact .inl ⟨hge, by rw [RlcUdxDlStaPdu.store_eq_none (h.nackCount ▸ hge)]; rfl⟩
  | false =>
    refine .inr ⟨rfl, ?_⟩
    obtain ⟨statusPdu', h1, h2⟩ := h.store_cur (cur.countSn.moveEnd loss)
    simp only [rlcAmmUlSetNackInfo, h.read, Option.bind_eq_bind, Option.bind_some, hs,
      Bool.false_eq_true, if_false, h1]
    refine ⟨_, rfl, rfl, ?_⟩
    split
    case isTrue =>
      rcases Nat.lt_or_ge (pre.length + 1) RLC_MAX_NACK_CNT with hlt | hge
      · exact .inr (h2.next hlt)
      · exact .inl ⟨hge, by simp [h2.nackCount]⟩
    case isFalse => exact ⟨h2.nackCount, h2.nackInfo⟩

theorem sn_ne_noNackSn {snLen : SnLen} {sn : ℕ} (h : sn < snLen.modulus) : sn ≠ noNackSn := by
  have : snLen.modulus ≤ 2 ^ 18 := by cases snLen <;> decide
  simp only [noNackSn]
  omega

/-- The NACKs of the structure. -/
def RlcUdxDlStaPdu.nacks (statusPdu : RlcUdxDlStaPdu) : List RlcNackInfo :=
  statusPdu.nackInfo.toList.take statusPdu.nackCount

/-- The calls for the losses and the end of the scan: either the entries fit, or the array is
left. -/
theorem finish_setNackInfos {amUl : RlcAmUl} {ls : List Loss}
    (hls : ∀ loss ∈ ls, loss.sn < amUl.snLen.modulus) {c : Scan} {pre : List RlcNackInfo}
    {cur : RlcNackInfo} (h : c.statusPdu.Holds pre cur) (hp : c.prevNackSn ≠ noNackSn) :
    (pre.length + (entriesFrom amUl.snLen cur c.prevNackSn ls).length ≤ RLC_MAX_NACK_CNT ∧
      ∃ sta, (setNackInfos amUl.snLen ls c).bind (finishStatus amUl) = some sta ∧
        sta.nackCount = pre.length + (entriesFrom amUl.snLen cur c.prevNackSn ls).length ∧
        sta.nacks = pre ++ entriesFrom amUl.snLen cur c.prevNackSn ls ∧
        sta.ackSn = amUl.rxHighestStatus) ∨
    (RLC_MAX_NACK_CNT < pre.length + (entriesFrom amUl.snLen cur c.prevNackSn ls).length ∧
      (setNackInfos amUl.snLen ls c).bind (finishStatus amUl) = none) := by
  induction ls generalizing c pre cur with
  | nil =>
    refine .inl ⟨h.length_lt, _, by simp [finishStatus, h.read]; rfl, ?_, ?_, rfl⟩
    · simp [hp, h.nackCount, entriesFrom]
    · simp only [RlcUdxDlStaPdu.nacks, hp, h.nackCount, h.nackInfo, entriesFrom]
      simp [List.take_append]
  | cons loss ls ih =>
    have hls' : ∀ l ∈ ls, l.sn < amUl.snLen.modulus := fun l hl => hls l (.tail _ hl)
    have hsn : loss.sn ≠ noNackSn := sn_ne_noNackSn (hls loss (.head _))
    rw [setNackInfos_cons, entriesFrom]
    rcases setNackInfo_cases amUl.snLen h hp loss with
      ⟨hs, ⟨hge, e⟩ | ⟨c', e, hc, hh⟩⟩ | ⟨hs, c', e, hc, hh⟩
    · have := List.length_pos_iff.2 (entriesFrom_ne_nil amUl.snLen loss.entry loss.sn ls)
      exact .inr ⟨by simp only [hs, if_true, List.length_cons]; omega, by rw [e]; rfl⟩
    · have := ih hls' hh (hc ▸ hsn)
      rw [hc] at this
      simpa only [e, hs, if_true, Option.bind_some, List.length_append, List.length_cons,
        List.length_nil, List.append_assoc, List.singleton_append, Nat.add_assoc, Nat.zero_add,
        Nat.add_comm 1] using this
    · rw [e, Option.bind_some]
      simp only [hs, Bool.false_eq_true, if_false]
      split
      case isFalse hr =>
        rw [if_neg hr] at hh
        have := ih hls' hh (hc ▸ hsn)
        rwa [hc] at this
      case isTrue hr =>
        rw [if_pos hr] at hh
        rcases hh with ⟨hge, hcnt⟩ | hh
        · have := List.length_pos_iff.2 (entriesFrom_ne_nil amUl.snLen {} loss.sn ls)
          exact .inr ⟨by simp only [List.length_cons]; omega, finishStatus_eq_none (by omega) ls⟩
        · have := ih hls' hh (hc ▸ hsn)
          rw [hc] at this
          simpa only [List.length_append, List.length_cons,
            List.length_nil, List.append_assoc, List.singleton_append, Nat.add_assoc, Nat.zero_add,
            Nat.add_comm 1] using this

/-- The first loss goes to the first place. -/
theorem setNackInfo_first (snLen : SnLen) (loss : Loss) :
    ∃ c, rlcAmmUlSetNackInfo snLen loss {} = some c ∧ c.prevNackSn = loss.sn ∧
      c.statusPdu.Holds [] loss.entry := by
  have h := RlcUdxDlStaPdu.holds_clear
  obtain ⟨statusPdu', h1, h2⟩ := h.store_cur loss.entry
  have hs : startsEntry snLen.snModMask {} noNackSn loss = true := by simp [startsEntry]
  simp only [rlcAmmUlSetNackInfo, h.read, Option.bind_eq_bind, Option.bind_some, hs, if_true,
    ne_eq, not_true_eq_false, if_false, h1]
  exact ⟨_, rfl, rfl, rfl, h2.nackInfo⟩

theorem losses_sn_lt {amUl : RlcAmUl} {loss : Loss} (h : loss ∈ losses amUl) :
    loss.sn < amUl.snLen.modulus := (mem_losses_iff.1 h).1

/-- If the entries fit, they are the NACKs of the structure. -/
theorem assemble_eq_some {amUl : RlcAmUl}
    (h : (entries amUl.snLen (losses amUl)).length ≤ RLC_MAX_NACK_CNT) :
    ∃ sta, rlcAmmUlAssembleCntrlInfo amUl = some sta ∧
      sta.nackCount = (entries amUl.snLen (losses amUl)).length ∧
      sta.nacks = entries amUl.snLen (losses amUl) ∧ sta.ackSn = amUl.rxHighestStatus := by
  rw [assemble_eq]
  have hlt : ∀ loss ∈ losses amUl, loss.sn < amUl.snLen.modulus := fun _ => losses_sn_lt
  generalize losses amUl = ls at h hlt ⊢
  cases ls with
  | nil => exact ⟨_, rfl, rfl, rfl, rfl⟩
  | cons loss ls =>
    obtain ⟨c, e, hc, hh⟩ := setNackInfo_first amUl.snLen loss
    have hls : ∀ l ∈ ls, l.sn < amUl.snLen.modulus := fun l hl => hlt l (.tail _ hl)
    have hr := finish_setNackInfos hls hh (hc ▸ sn_ne_noNackSn (hlt loss (.head _)))
    rw [hc] at hr
    rw [setNackInfos_cons, e, Option.bind_some]
    rcases hr with ⟨-, hr⟩ | ⟨hr, -⟩
    · simpa [entries] using hr
    · exact absurd h (by simpa [entries] using hr)

/-- If they do not, the array is left. -/
theorem assemble_eq_none {amUl : RlcAmUl}
    (h : RLC_MAX_NACK_CNT < (entries amUl.snLen (losses amUl)).length) :
    rlcAmmUlAssembleCntrlInfo amUl = none := by
  rw [assemble_eq]
  have hlt : ∀ loss ∈ losses amUl, loss.sn < amUl.snLen.modulus := fun _ => losses_sn_lt
  generalize losses amUl = ls at h hlt ⊢
  cases ls with
  | nil => exact absurd h (by simp [entries])
  | cons loss ls =>
    obtain ⟨c, e, hc, hh⟩ := setNackInfo_first amUl.snLen loss
    have hls : ∀ l ∈ ls, l.sn < amUl.snLen.modulus := fun l hl => hlt l (.tail _ hl)
    have hr := finish_setNackInfos hls hh (hc ▸ sn_ne_noNackSn (hlt loss (.head _)))
    rw [hc] at hr
    rw [setNackInfos_cons, e, Option.bind_some]
    rcases hr with ⟨hr, -⟩ | ⟨-, hr⟩
    · exact absurd h (by simpa [entries] using hr)
    · exact hr

/-!
## One entry for a run of losses

Losses that join one another form a run, and a run of fewer than 255 losses becomes one entry
(`entries_run`). The 255th loss of a run closes its entry, and what follows goes on from a
cleared place, without an SN (`entries_burst`).
-/

/-- The SN of `loss` is the next one, and `prev` does not end at a byte that is followed by
received ones. The second comparison is not modular, as in `rlcAmmUlSetNackInfo`. -/
def joins (snLen : SnLen) (prev loss : Loss) : Bool :=
  (prev.sn + 1) % snLen.modulus == loss.sn &&
    !(prev.isSegment && prev.sn + 1 == loss.sn && prev.soEnd != RLC_ALL_BYTES_MISSING)

theorem next_of_joins {snLen : SnLen} {prev loss : Loss} (h : joins snLen prev loss = true) :
    loss.sn = (prev.sn + 1) % snLen.modulus := by
  simp only [joins, Bool.and_eq_true, beq_iff_eq] at h
  exact h.1.symm

/-- The number of SNs of an entry. -/
def RlcNackInfo.count (nackInfo : RlcNackInfo) : ℕ := max nackInfo.nackRange 1

/-- The entry ends where `last` does. -/
structure EndsWith (nackInfo : RlcNackInfo) (last : Loss) : Prop where
  seg : last.isSegment = true → nackInfo.isSegment = true ∧ nackInfo.soEnd = last.soEnd
  whole : last.isSegment = false → nackInfo.isSegment = true →
    nackInfo.soEnd = RLC_ALL_BYTES_MISSING

/-- `nackInfo` is the entry of a run of `n` losses from `first` to `last`. -/
structure EntryOf (nackInfo : RlcNackInfo) (first last : Loss) (n : ℕ) : Prop where
  sn : nackInfo.sn = first.sn
  count : nackInfo.count = n
  soStart_le : nackInfo.soStart ≤ first.soStart
  firstSeg : first.isSegment = true →
    nackInfo.isSegment = true ∧ nackInfo.soStart = first.soStart
  ends : EndsWith nackInfo last

/-- The entry with one more loss. -/
def RlcNackInfo.join (nackInfo : RlcNackInfo) (loss : Loss) : RlcNackInfo :=
  nackInfo.countSn.moveEnd loss

theorem countSn_nackRange (nackInfo : RlcNackInfo) :
    nackInfo.countSn.nackRange = nackInfo.count + 1 := by
  simp only [RlcNackInfo.countSn, RlcNackInfo.count]
  split_ifs <;> omega

section

variable (nackInfo : RlcNackInfo) (loss : Loss)

@[simp] theorem join_sn : (nackInfo.join loss).sn = nackInfo.sn := by
  simp only [RlcNackInfo.join, RlcNackInfo.moveEnd]
  split_ifs <;> rfl

@[simp] theorem join_count : (nackInfo.join loss).count = nackInfo.count + 1 := by
  have h : (nackInfo.join loss).nackRange = nackInfo.countSn.nackRange := by
    simp only [RlcNackInfo.join, RlcNackInfo.moveEnd]
    split_ifs <;> rfl
  rw [RlcNackInfo.count, h, countSn_nackRange]
  omega

theorem join_soStart_le : (nackInfo.join loss).soStart ≤ nackInfo.soStart := by
  simp only [RlcNackInfo.join, RlcNackInfo.moveEnd]
  split_ifs
  · exact le_rfl
  · exact le_rfl
  · exact Nat.zero_le _

theorem join_soStart_eq (h : nackInfo.isSegment = true) :
    (nackInfo.join loss).isSegment = true ∧ (nackInfo.join loss).soStart = nackInfo.soStart := by
  simp only [RlcNackInfo.join, RlcNackInfo.moveEnd, RlcNackInfo.countSn]
  split_ifs <;> simp_all

theorem endsWith_join : EndsWith (nackInfo.join loss) loss := by
  constructor <;>
  · simp only [RlcNackInfo.join, RlcNackInfo.moveEnd, RlcNackInfo.countSn]
    split_ifs <;> simp_all

end

theorem entryOf_entry (loss : Loss) : EntryOf loss.entry loss loss 1 where
  sn := rfl
  count := rfl
  soStart_le := le_rfl
  firstSeg h := ⟨h, rfl⟩
  ends := ⟨fun h => ⟨h, rfl⟩, fun h h' => by simp [Loss.entry, h] at h'⟩

theorem EntryOf.join {nackInfo : RlcNackInfo} {first last : Loss} {n : ℕ}
    (h : EntryOf nackInfo first last n) (loss : Loss) :
    EntryOf (nackInfo.join loss) first loss (n + 1) where
  sn := (join_sn nackInfo loss).trans h.sn
  count := by rw [join_count, h.count]
  soStart_le := (join_soStart_le nackInfo loss).trans h.soStart_le
  firstSeg hf := by
    obtain ⟨h1, h2⟩ := h.firstSeg hf
    obtain ⟨h3, h4⟩ := join_soStart_eq nackInfo loss h1
    exact ⟨h3, h4.trans h2⟩
  ends := endsWith_join nackInfo loss

theorem EntryOf.foldl {nackInfo : RlcNackInfo} {first last : Loss} {n : ℕ} (rest : List Loss)
    (h : EntryOf nackInfo first last n) :
    EntryOf (rest.foldl RlcNackInfo.join nackInfo) first
      ((last :: rest).getLast (List.cons_ne_nil _ _)) (n + rest.length) := by
  induction rest generalizing nackInfo last n with
  | nil => exact h
  | cons loss rest ih =>
    rw [List.foldl_cons, List.getLast_cons_cons, List.length_cons, Nat.add_comm rest.length,
      ← Nat.add_assoc]
    exact ih (h.join loss)

/-! ## A new entry is started exactly between losses that do not join -/

theorem next_ne {snLen : SnLen} {sn : ℕ} (h : sn < snLen.modulus) : (sn + 1) % snLen.modulus ≠ sn := by
  cases snLen <;> simp only [SnLen.modulus] at * <;> omega

/-- From a cleared place only the next SN is asked for. -/
theorem startsEntry_clear {snLen : SnLen} {prev loss : Loss} (hp : prev.sn < snLen.modulus) :
    startsEntry snLen.snModMask {} prev.sn loss = ((prev.sn + 1) % snLen.modulus != loss.sn) := by
  have hn : prev.sn ≠ noNackSn := sn_ne_noNackSn hp
  simp only [startsEntry, hn, decide_false, Bool.false_or, SnLen.and_mask, ne_eq, Bool.false_and,
    Bool.or_false]
  by_cases e : (prev.sn + 1) % snLen.modulus = loss.sn
  · have hne : prev.sn ≠ loss.sn := fun h => next_ne hp (e.trans h.symm)
    simp [e, hne]
  · simp [e]

theorem startsEntry_eq {snLen : SnLen} {nackInfo : RlcNackInfo} {prev : Loss}
    (h : EndsWith nackInfo prev) (hp : prev.sn < snLen.modulus) (loss : Loss) :
    startsEntry snLen.snModMask nackInfo prev.sn loss = !joins snLen prev loss := by
  have hn : prev.sn ≠ noNackSn := sn_ne_noNackSn hp
  simp only [startsEntry, joins, hn, decide_false, Bool.false_or, SnLen.and_mask]
  by_cases e : (prev.sn + 1) % snLen.modulus = loss.sn
  · have hne : prev.sn ≠ loss.sn := fun h => next_ne hp (e.trans h.symm)
    cases hs : prev.isSegment with
    | true =>
      obtain ⟨h1, h2⟩ := h.seg hs
      rw [Bool.eq_iff_iff]
      simp [e, hne, h1, h2]
    | false =>
      cases hi : nackInfo.isSegment with
      | true => simp [e, hne, h.whole hs hi]
      | false => simp [e, hne]
  · simp [e]

/-! ## The entry of a run -/

/-- `nackInfo` is the entry of the run. -/
def IsEntry (nackInfo : RlcNackInfo) (run : List Loss) : Prop :=
  ∃ h : run ≠ [], EntryOf nackInfo (run.head h) (run.getLast h) run.length

/-- Losses that join the entry in use and leave it open. -/
theorem entriesFrom_joined {snLen : SnLen} {cur : RlcNackInfo} {prev : Loss} {rest : List Loss}
    (h : EndsWith cur prev) (hc : (prev :: rest).IsChain fun x y => joins snLen x y = true)
    (hlt : ∀ loss ∈ prev :: rest, loss.sn < snLen.modulus) (hn : cur.count + rest.length < 255)
    (ls : List Loss) :
    entriesFrom snLen cur prev.sn (rest ++ ls) =
      entriesFrom snLen (rest.foldl RlcNackInfo.join cur)
        ((prev :: rest).getLast (List.cons_ne_nil _ _)).sn ls := by
  induction rest generalizing cur prev with
  | nil => rfl
  | cons loss rest ih =>
    rw [List.isChain_cons_cons] at hc
    simp only [List.length_cons] at hn
    have hs : startsEntry snLen.snModMask cur prev.sn loss = false := by
      rw [startsEntry_eq h (hlt prev (.head _)), hc.1, Bool.not_true]
    have hr : cur.countSn.nackRange ≠ 255 := by
      rw [countSn_nackRange]
      omega
    rw [List.cons_append, entriesFrom, if_neg (by simp [hs]), if_neg hr, List.getLast_cons_cons]
    refine ih (endsWith_join cur loss) hc.2 (fun l hl => hlt l (.tail _ hl)) ?_
    have := join_count cur loss
    simp only [RlcNackInfo.join] at this
    omega

/-- A loss that does not join closes the entry in use. -/
theorem entriesFrom_closed {snLen : SnLen} {cur : RlcNackInfo} {prev : Loss} {ls : List Loss}
    (h : EndsWith cur prev) (hp : prev.sn < snLen.modulus)
    (hb : ∀ loss, ls.head? = some loss → joins snLen prev loss = false) :
    entriesFrom snLen cur prev.sn ls = cur :: entries snLen ls := by
  cases ls with
  | nil => rfl
  | cons loss ls =>
    have hs := startsEntry_eq h hp loss
    rw [hb loss rfl, Bool.not_false] at hs
    rw [entriesFrom, if_pos hs, entries]

/-- The loss that brings the range to 255 closes the entry in use. -/
theorem entriesFrom_full {snLen : SnLen} {cur : RlcNackInfo} {prev loss : Loss} {ls : List Loss}
    (h : EndsWith cur prev) (hp : prev.sn < snLen.modulus) (hj : joins snLen prev loss = true)
    (hn : cur.count = 254) :
    entriesFrom snLen cur prev.sn (loss :: ls) = cur.join loss :: entriesFrom snLen {} loss.sn ls := by
  have hs : startsEntry snLen.snModMask cur prev.sn loss = false := by
    rw [startsEntry_eq h hp, hj, Bool.not_true]
  rw [entriesFrom, if_neg (by simp [hs]), if_pos (by rw [countSn_nackRange, hn])]
  rfl

/-- **A run of fewer than 255 losses is one entry**, if nothing joins it. -/
theorem entries_run {snLen : SnLen} {run ls : List Loss} (hne : run ≠ [])
    (hc : run.IsChain fun x y => joins snLen x y = true)
    (hlt : ∀ loss ∈ run, loss.sn < snLen.modulus) (hn : run.length < 255)
    (hb : ∀ loss, ls.head? = some loss → joins snLen (run.getLast hne) loss = false) :
    ∃ e, IsEntry e run ∧ entries snLen (run ++ ls) = e :: entries snLen ls := by
  cases run with
  | nil => exact absurd rfl hne
  | cons first rest =>
    simp only [List.length_cons] at hn
    have h := (entryOf_entry first).foldl rest
    rw [Nat.add_comm] at h
    refine ⟨_, ⟨hne, h⟩, ?_⟩
    rw [List.cons_append, entries, entriesFrom_joined (entryOf_entry first).ends hc hlt
      (by rw [(entryOf_entry first).count]; omega),
      entriesFrom_closed h.ends (hlt _ (List.getLast_mem _)) hb]

/-- **The 255th loss of a run closes its entry**, and the next place is used as it is. -/
theorem entries_burst {snLen : SnLen} {run : List Loss} (ls : List Loss) (hne : run ≠ [])
    (hc : run.IsChain fun x y => joins snLen x y = true)
    (hlt : ∀ loss ∈ run, loss.sn < snLen.modulus) (hn : run.length = 255) :
    ∃ e, IsEntry e run ∧
      entries snLen (run ++ ls) = e :: entriesFrom snLen {} (run.getLast hne).sn ls := by
  obtain ⟨init, loss, rfl⟩ : ∃ init loss, run = init ++ [loss] :=
    ⟨_, _, (List.dropLast_append_getLast hne).symm⟩
  simp only [List.length_append, List.length_singleton] at hn
  cases init with
  | nil => simp at hn
  | cons first rest =>
    simp only [List.length_cons] at hn
    rw [List.isChain_append] at hc
    have h := (entryOf_entry first).foldl rest
    have hj : joins snLen ((first :: rest).getLast (List.cons_ne_nil _ _)) loss = true :=
      hc.2.2 _ (List.getLast?_eq_some_getLast _) _ rfl
    refine ⟨(rest.foldl RlcNackInfo.join first.entry).join loss, ⟨hne, ?_⟩, ?_⟩
    · have h3 := h.join loss
      rw [show 1 + rest.length + 1 = (first :: rest ++ [loss]).length by simp; omega] at h3
      simpa using h3
    · rw [List.append_assoc, List.cons_append, List.singleton_append, entries,
        entriesFrom_joined (entryOf_entry first).ends hc.1
          (fun l hl => hlt l (List.mem_append_left _ hl))
          (by rw [(entryOf_entry first).count]; omega),
        entriesFrom_full h.ends (hlt _ (List.mem_append_left _ (List.getLast_mem _))) hj
          (by rw [h.count]; omega)]
      simp

/-- Runs one after the other, none joined by the next one. -/
theorem entries_runs {snLen : SnLen} {runs : List (List Loss)} {ls : List Loss}
    (hne : ∀ run ∈ runs, run ≠ [] ∧ (run.IsChain fun x y => joins snLen x y = true) ∧
      (∀ loss ∈ run, loss.sn < snLen.modulus) ∧ run.length < 255)
    (hb : runs.IsChain fun a b => ∃ ha hb, joins snLen (a.getLast ha) (b.head hb) = false)
    (hl : ∀ run, runs.getLast? = some run → ∀ loss, ls.head? = some loss →
      ∃ h : run ≠ [], joins snLen (run.getLast h) loss = false) :
    ∃ es, List.Forall₂ IsEntry es runs ∧
      entries snLen (runs.flatten ++ ls) = es ++ entries snLen ls := by
  induction runs with
  | nil => exact ⟨[], .nil, rfl⟩
  | cons run runs ih =>
    obtain ⟨hne', hc, hlt, hn⟩ := hne run (.head _)
    rw [List.isChain_cons] at hb
    have hl' : ∀ run', runs.getLast? = some run' → ∀ loss, ls.head? = some loss →
        ∃ h : run' ≠ [], joins snLen (run'.getLast h) loss = false := by
      intro run' h
      refine hl run' ?_
      rw [List.getLast?_cons, h, Option.getD_some]
    obtain ⟨es, h1, h2⟩ := ih (fun r hr => hne r (.tail _ hr)) hb.2 hl'
    have hb' : ∀ loss, (runs.flatten ++ ls).head? = some loss →
        joins snLen (run.getLast hne') loss = false := by
      intro loss hloss
      cases runs with
      | nil =>
        obtain ⟨_, h⟩ := hl run rfl loss hloss
        exact h
      | cons run' runs =>
        obtain ⟨_, hr', h⟩ := hb.1 run' rfl
        rw [List.flatten_cons, List.append_assoc, List.head?_append_of_ne_nil _ hr',
          List.head?_eq_some_head hr'] at hloss
        rwa [← Option.some.inj hloss]
    obtain ⟨e, h3, h4⟩ := entries_run hne' hc hlt hn hb'
    exact ⟨e :: es, .cons h3 h1, by rw [List.flatten_cons, List.append_assoc, h4, h2]; rfl⟩

end OaiCu.OduRlc
