import Mathlib.Data.List.Range
import Mathlib.Data.List.Infix
import OaiCu.OduRlc.AmUl
import Mathlib.Order.Lattice

/-!
# What the scan finds missing

The scan of `rlcAmmUlAssembleCntrlInfo` comes down to a list: `losses`, the arguments of the
calls of `rlcAmmUlSetNackInfo` in their order. The list depends on the reception buffer alone,
since the local `nackCnt` that guards every call stays at zero. A byte is missing exactly if
one of the losses has it, and the losses are strictly ordered by SN and offset, counted from
`rxNext`.
-/

namespace OaiCu.OduRlc

/-! ## Sequence numbers -/

theorem SnLen.modulus_pos (snLen : SnLen) : 0 < snLen.modulus := by
  cases snLen <;> decide

theorem SnLen.and_mask (snLen : SnLen) (x : ℕ) : x &&& snLen.snModMask = x % snLen.modulus := by
  cases snLen
  · exact Nat.and_two_pow_sub_one_eq_mod x 12
  · exact Nat.and_two_pow_sub_one_eq_mod x 18

theorem modamr_eq {snLen : SnLen} {x z : ℕ} (hx : x < snLen.modulus) (hz : z < snLen.modulus) :
    modamr x z snLen.snModMask = (x + snLen.modulus - z) % snLen.modulus := by
  rw [modamr, SnLen.and_mask]
  cases snLen <;> simp only [SnLen.modulus] at * <;> omega

namespace RlcAmUl

variable (amUl : RlcAmUl)

/-- The position of `sn` in the order that starts at `rxNext`. -/
def pos (sn : ℕ) : ℕ := modamr sn amUl.rxNext amUl.snModMask

/-- The SN at a position. -/
def snAt (i : ℕ) : ℕ := (amUl.rxNext + i) % amUl.snLen.modulus

/-- The number of SNs that the scan goes through. -/
def high : ℕ := amUl.pos amUl.rxHighestStatus

def recBuf (sn : ℕ) : Option RlcAmRecBuf := rlcUtlGetRecBuf amUl.recBufLst sn

variable {amUl}

theorem pos_lt {sn : ℕ} (h : sn < amUl.snLen.modulus) : amUl.pos sn < amUl.snLen.modulus := by
  rw [pos, snModMask, modamr_eq h amUl.rxNext_lt]
  exact Nat.mod_lt _ amUl.snLen.modulus_pos

theorem high_lt : amUl.high < amUl.snLen.modulus := pos_lt amUl.rxHighestStatus_lt

theorem snAt_lt (i : ℕ) : amUl.snAt i < amUl.snLen.modulus := Nat.mod_lt _ amUl.snLen.modulus_pos

theorem pos_snAt {i : ℕ} (h : i < amUl.snLen.modulus) : amUl.pos (amUl.snAt i) = i := by
  have hz := amUl.rxNext_lt
  rw [pos, snModMask, modamr_eq (snAt_lt i) hz, snAt]
  rcases Nat.lt_or_ge (amUl.rxNext + i) amUl.snLen.modulus with hi | hi
  · rw [Nat.mod_eq_of_lt hi, show amUl.rxNext + i + amUl.snLen.modulus - amUl.rxNext
      = i + amUl.snLen.modulus by omega, Nat.add_mod_right, Nat.mod_eq_of_lt h]
  · rw [Nat.mod_eq_sub_mod hi,
      Nat.mod_eq_of_lt (show amUl.rxNext + i - amUl.snLen.modulus < _ by omega),
      Nat.mod_eq_of_lt (by omega)]
    omega

theorem snAt_pos {sn : ℕ} (h : sn < amUl.snLen.modulus) : amUl.snAt (amUl.pos sn) = sn := by
  have hz := amUl.rxNext_lt
  rw [pos, snModMask, modamr_eq h hz, snAt]
  rcases Nat.lt_or_ge sn amUl.rxNext with hs | hs
  · rw [Nat.mod_eq_of_lt (show sn + amUl.snLen.modulus - amUl.rxNext < _ by omega),
      show amUl.rxNext + (sn + amUl.snLen.modulus - amUl.rxNext) = sn + amUl.snLen.modulus by omega,
      Nat.add_mod_right, Nat.mod_eq_of_lt h]
  · rw [show sn + amUl.snLen.modulus - amUl.rxNext = (sn - amUl.rxNext) + amUl.snLen.modulus by omega,
      Nat.add_mod_right, Nat.mod_eq_of_lt (show sn - amUl.rxNext < _ by omega),
      show amUl.rxNext + (sn - amUl.rxNext) = sn by omega, Nat.mod_eq_of_lt h]

theorem eq_of_pos_eq {sn sn' : ℕ} (h : sn < amUl.snLen.modulus) (h' : sn' < amUl.snLen.modulus)
    (e : amUl.pos sn = amUl.pos sn') : sn = sn' := by
  rw [← snAt_pos h, ← snAt_pos h', e]

theorem snAt_succ (i : ℕ) : (amUl.snAt i + 1) % amUl.snLen.modulus = amUl.snAt (i + 1) := by
  rw [snAt, snAt, Nat.mod_add_mod, Nat.add_assoc]

@[simp] theorem snAt_zero : amUl.snAt 0 = amUl.rxNext := Nat.mod_eq_of_lt amUl.rxNext_lt

/-- The next SN has the next position, unless it is `rxNext` again. -/
theorem pos_succ {sn : ℕ} (h : sn < amUl.snLen.modulus) (hp : amUl.pos sn + 1 < amUl.snLen.modulus) :
    amUl.pos ((sn + 1) % amUl.snLen.modulus) = amUl.pos sn + 1 := by
  nth_rewrite 1 [← snAt_pos h]
  rw [snAt_succ, pos_snAt hp]

end RlcAmUl

/-! ## The losses -/

/-- The gaps before the segments; `seqSo` is the offset expected next. -/
def gaps (sn : ℕ) : List RlcSeg → ℕ → List Loss
  | [], _ => []
  | seg :: segs, seqSo =>
    (if seg.so ≠ seqSo then [⟨sn, true, seqSo, (seg.so + 2 ^ 16 - 1) % 2 ^ 16⟩] else []) ++
      gaps sn segs ((seg.soEnd + 1) % 2 ^ 16)

/-- What is missing behind the segments. -/
def tailGap (sn : ℕ) (segs : List RlcSeg) : List Loss :=
  match segs.getLast? with
  | some seg =>
    if seg.si ≠ .last then [⟨sn, true, (seg.soEnd + 1) % 2 ^ 16, RLC_ALL_BYTES_MISSING⟩] else []
  | none => []

/-- What is missing of one SN. -/
def lossesSn (sn : ℕ) : Option RlcAmRecBuf → List Loss
  | none => [{ sn := sn }]
  | some recBuf =>
    if recBuf.pdu = none ∧ 0 < recBuf.segLst.length then
      gaps sn recBuf.segLst 0 ++ tailGap sn recBuf.segLst
    else []

/-- What the scan finds, SN by SN. -/
def losses (amUl : RlcAmUl) : List Loss :=
  (List.range amUl.high).flatMap fun i => lossesSn (amUl.snAt i) (amUl.recBuf (amUl.snAt i))

/-! ## The scan is a fold over the losses -/

/-- The calls of `rlcAmmUlSetNackInfo` for a list of losses. -/
def setNackInfos (snLen : SnLen) (ls : List Loss) (c : Scan) : Option Scan :=
  ls.foldlM (fun c loss => rlcAmmUlSetNackInfo snLen loss c) c

@[simp] theorem setNackInfos_nil (snLen : SnLen) (c : Scan) : setNackInfos snLen [] c = some c := rfl

@[simp] theorem setNackInfos_cons (snLen : SnLen) (loss : Loss) (ls : List Loss) (c : Scan) :
    setNackInfos snLen (loss :: ls) c =
      (rlcAmmUlSetNackInfo snLen loss c).bind (setNackInfos snLen ls) := rfl

theorem setNackInfos_append (snLen : SnLen) (ls ls' : List Loss) (c : Scan) :
    setNackInfos snLen (ls ++ ls') c =
      (setNackInfos snLen ls c).bind (setNackInfos snLen ls') :=
  List.foldlM_append

/-- The offset behind the last segment. -/
def nextSo (segs : List RlcSeg) (seqSo : ℕ) : ℕ :=
  (segs.getLast?.map fun seg => (seg.soEnd + 1) % 2 ^ 16).getD seqSo

theorem nextSo_cons (seg : RlcSeg) (segs : List RlcSeg) (seqSo : ℕ) :
    nextSo (seg :: segs) seqSo = nextSo segs ((seg.soEnd + 1) % 2 ^ 16) := by
  cases segs with
  | nil => rfl
  | cons seg' segs => simp [nextSo, List.getLast?_cons]

theorem assembleSegs_eq (snLen : SnLen) (sn : ℕ) (segs : List RlcSeg) (seqSo : ℕ) (c : Scan) :
    assembleSegs snLen 0 sn segs seqSo c =
      (setNackInfos snLen (gaps sn segs seqSo) c).map fun c => (nextSo segs seqSo, c) := by
  induction segs generalizing seqSo c with
  | nil => rfl
  | cons seg segs ih =>
    rw [assembleSegs, if_pos (by decide), gaps, nextSo_cons]
    by_cases hs : seg.so = seqSo
    · simp [hs, ih]
    · simp only [ne_eq, hs, not_false_eq_true, if_true, List.cons_append, List.nil_append,
        setNackInfos_cons]
      cases rlcAmmUlSetNackInfo snLen ⟨sn, true, seqSo, (seg.so + 2 ^ 16 - 1) % 2 ^ 16⟩ c with
      | none => rfl
      | some c' => exact ih _ _

theorem assembleSn_eq (snLen : SnLen) (sn : ℕ) (recBuf : Option RlcAmRecBuf) (c : Scan) :
    assembleSn snLen 0 sn recBuf c = setNackInfos snLen (lossesSn sn recBuf) c := by
  cases recBuf with
  | none =>
    rw [assembleSn, if_pos (by decide), lossesSn, setNackInfos_cons]
    cases rlcAmmUlSetNackInfo snLen { sn := sn } c <;> rfl
  | some recBuf =>
    simp only [assembleSn, lossesSn]
    split
    case isFalse => rfl
    case isTrue h =>
      rw [assembleSegs_eq, setNackInfos_append]
      cases setNackInfos snLen (gaps sn recBuf.segLst 0) c with
      | none => rfl
      | some c' =>
        simp only [Option.map_some, Option.bind_eq_bind, Option.bind_some]
        cases hl : recBuf.segLst.getLast? with
        | none => simp [tailGap, hl]
        | some seg =>
          by_cases hsi : seg.si = .last
          · simp [tailGap, hl, hsi]
          · have hn : (0 : ℕ) < RLC_MAX_NACK_CNT := by decide
            simp only [tailGap, hl, nextSo, ne_eq, hsi, not_false_eq_true, hn, and_self, if_true,
              Option.map_some, Option.getD_some, setNackInfos_cons]
            cases rlcAmmUlSetNackInfo snLen _ c' <;> rfl

/-- From position `i` on, the loop makes the calls for the positions up to `high`. -/
theorem assembleLoop_eq (amUl : RlcAmUl) (n i : ℕ) (h : i + n = amUl.high) (c : Scan) :
    assembleLoop amUl 0 amUl.high n (amUl.snAt i) i c =
      (setNackInfos amUl.snLen ((List.range' i n).flatMap fun i =>
        lossesSn (amUl.snAt i) (amUl.recBuf (amUl.snAt i))) c).map
        fun c => (amUl.snAt amUl.high, amUl.high, c) := by
  induction n generalizing i c with
  | zero =>
    obtain rfl : i = amUl.high := by omega
    rfl
  | succ n ih =>
    have hlt : i + 1 < amUl.snLen.modulus := by
      have := amUl.high_lt
      omega
    have hsn : (amUl.snAt i + 1) &&& amUl.snModMask = amUl.snAt (i + 1) := by
      rw [RlcAmUl.snModMask, SnLen.and_mask, RlcAmUl.snAt_succ]
    have hpos : modamr (amUl.snAt (i + 1)) amUl.rxNext amUl.snModMask = i + 1 :=
      RlcAmUl.pos_snAt hlt
    rw [assembleLoop, if_pos (by omega), List.range'_succ, List.flatMap_cons, setNackInfos_append,
      assembleSn_eq]
    simp only [hsn, hpos, Option.bind_eq_bind]
    rw [RlcAmUl.recBuf]
    cases setNackInfos amUl.snLen
      (lossesSn (amUl.snAt i) (rlcUtlGetRecBuf amUl.recBufLst (amUl.snAt i))) c with
    | none => rfl
    | some c' =>
      rw [Option.bind_some, Option.bind_some, if_neg (by simp [RLC_MAX_NACK_CNT])]
      exact ih (i + 1) (by omega) c'

/-- The structure after the calls for the losses, as `rlcAmmUlAssembleCntrlInfo` completes it. -/
def finishStatus (amUl : RlcAmUl) (c : Scan) : Option RlcUdxDlStaPdu := do
  let nackInfo ← c.statusPdu.nackInfo[c.statusPdu.nackCount]?
  return { c.statusPdu with
    nackCount :=
      if c.prevNackSn ≠ noNackSn then c.statusPdu.nackCount + 1 else c.statusPdu.nackCount
    ackSn := amUl.rxHighestStatus
    controlBo := (c.staPduEncSize + rangeSize nackInfo) % 2 ^ 16 }

theorem assemble_eq (amUl : RlcAmUl) :
    rlcAmmUlAssembleCntrlInfo amUl =
      (setNackInfos amUl.snLen (losses amUl) {}).bind (finishStatus amUl) := by
  have h0 : modamr amUl.rxNext amUl.rxNext amUl.snModMask = 0 := by
    have h : amUl.pos (amUl.snAt 0) = 0 := RlcAmUl.pos_snAt amUl.snLen.modulus_pos
    rwa [RlcAmUl.snAt_zero] at h
  have hl := assembleLoop_eq amUl amUl.high 0 (by omega) {}
  rw [RlcAmUl.snAt_zero] at hl
  have hhigh : modamr amUl.rxHighestStatus amUl.rxNext amUl.snModMask = amUl.high := rfl
  simp only [rlcAmmUlAssembleCntrlInfo, h0, hhigh, hl, losses, ← List.range_eq_range']
  cases setNackInfos amUl.snLen _ {} with
  | none => rfl
  | some c => simp [finishStatus]

/-! ## What the losses stand for -/

/-- The byte at offset `b` is in the segment. -/
def RlcSeg.Has (seg : RlcSeg) (b : ℕ) : Prop := seg.so ≤ b ∧ b ≤ seg.soEnd

/-- Byte `b` is not received. With the last segment of the SDU the bytes behind its end are
none of the SDU's. -/
def RlcAmRecBuf.Missing (recBuf : RlcAmRecBuf) (b : ℕ) : Prop :=
  recBuf.pdu = none ∧ recBuf.segLst ≠ [] ∧ (∀ seg ∈ recBuf.segLst, ¬ seg.Has b) ∧
    ∀ seg, recBuf.segLst.getLast? = some seg → seg.si = .last → b ≤ seg.soEnd

/-- All bytes are received, the last one of the SDU included. -/
def RlcAmRecBuf.Complete (recBuf : RlcAmRecBuf) : Prop :=
  recBuf.pdu ≠ none ∨ recBuf.segLst = [] ∨
    ∃ seg, recBuf.segLst.getLast? = some seg ∧ seg.si = .last ∧
      ∀ b ≤ seg.soEnd, ∃ seg' ∈ recBuf.segLst, seg'.Has b

/-- The byte at the 16-bit offset `b` of `sn` is not received. -/
def RlcAmUl.Missing (amUl : RlcAmUl) (sn b : ℕ) : Prop :=
  b ≤ RLC_ALL_BYTES_MISSING ∧ ∀ recBuf, amUl.recBuf sn = some recBuf → recBuf.Missing b

def RlcAmUl.FullyReceived (amUl : RlcAmUl) (sn : ℕ) : Prop :=
  ∃ recBuf, amUl.recBuf sn = some recBuf ∧ recBuf.Complete

def Loss.Has (loss : Loss) (b : ℕ) : Prop :=
  loss.isSegment = true → loss.soStart ≤ b ∧ b ≤ loss.soEnd

/-- The segments of a reception buffer from the offset `seqSo` on. -/
structure SegsFrom (seqSo : ℕ) (segs : List RlcSeg) : Prop where
  ordered : segs.Pairwise fun seg seg' => seg.soEnd < seg'.so
  offsets : ∀ seg ∈ segs, seg.so ≤ seg.soEnd ∧ seg.soEnd ≤ RLC_ALL_BYTES_MISSING
  start : ∀ seg ∈ segs, seqSo ≤ seg.so

theorem RlcAmRecBuf.segsFrom (recBuf : RlcAmRecBuf) : SegsFrom 0 recBuf.segLst :=
  ⟨recBuf.ordered, fun seg h => ⟨(recBuf.offsets seg h).1, (recBuf.offsets seg h).2.1⟩,
    fun _ _ => Nat.zero_le _⟩

namespace SegsFrom

variable {seqSo : ℕ} {seg : RlcSeg} {segs : List RlcSeg}

theorem tail (h : SegsFrom seqSo (seg :: segs)) : SegsFrom (seg.soEnd + 1) segs :=
  ⟨h.ordered.of_cons, fun s hs => h.offsets s (.tail _ hs),
    fun _ hs => List.rel_of_pairwise_cons h.ordered hs⟩

/-- Behind a segment that has a successor there is a 16-bit offset. -/
theorem gaps_tail (h : SegsFrom seqSo (seg :: segs)) (sn : ℕ) :
    gaps sn segs ((seg.soEnd + 1) % 2 ^ 16) = gaps sn segs (seg.soEnd + 1) := by
  cases segs with
  | nil => rfl
  | cons seg' segs =>
    have h1 : seg.soEnd < seg'.so := List.rel_of_pairwise_cons h.ordered (.head _)
    have h2 := h.offsets seg' (.tail _ (.head _))
    rw [Nat.mod_eq_of_lt]
    simp only [RLC_ALL_BYTES_MISSING] at h2
    omega

theorem gaps_cons (h : SegsFrom seqSo (seg :: segs)) (sn : ℕ) :
    gaps sn (seg :: segs) seqSo =
      (if seg.so ≠ seqSo then [⟨sn, true, seqSo, seg.so - 1⟩] else []) ++
        gaps sn segs (seg.soEnd + 1) := by
  rw [gaps, h.gaps_tail]
  by_cases hne : seg.so = seqSo
  · rw [if_neg (not_not.2 hne), if_neg (not_not.2 hne)]
  · have h1 := h.start seg (.head _)
    have h2 := h.offsets seg (.head _)
    simp only [RLC_ALL_BYTES_MISSING] at h2
    rw [show (seg.so + 2 ^ 16 - 1) % 2 ^ 16 = seg.so - 1 by omega]

end SegsFrom

/-- A gap lies between `seqSo` and some segment. -/
theorem mem_gaps {sn seqSo : ℕ} {segs : List RlcSeg} (h : SegsFrom seqSo segs) {loss : Loss}
    (hl : loss ∈ gaps sn segs seqSo) :
    loss.sn = sn ∧ loss.isSegment = true ∧ seqSo ≤ loss.soStart ∧ loss.soStart ≤ loss.soEnd ∧
      ∃ seg ∈ segs, loss.soEnd < seg.so := by
  induction segs generalizing seqSo with
  | nil => cases hl
  | cons seg segs ih =>
    have h1 := h.start seg (.head _)
    have h2 := h.offsets seg (.head _)
    rw [h.gaps_cons, List.mem_append] at hl
    rcases hl with hl | hl
    · split at hl
      case isFalse => cases hl
      case isTrue hne =>
        obtain rfl := List.mem_singleton.1 hl
        exact ⟨rfl, rfl, le_rfl, by simp only; omega, seg, .head _, by simp only; omega⟩
    · obtain ⟨e1, e2, e3, e4, s, hs, e5⟩ := ih h.tail hl
      exact ⟨e1, e2, by omega, e4, s, .tail _ hs, e5⟩

theorem gaps_pairwise {sn seqSo : ℕ} {segs : List RlcSeg} (h : SegsFrom seqSo segs) :
    (gaps sn segs seqSo).Pairwise fun loss loss' => loss.soEnd < loss'.soStart := by
  induction segs generalizing seqSo with
  | nil => exact .nil
  | cons seg segs ih =>
    have h1 := h.start seg (.head _)
    have h2 := h.offsets seg (.head _)
    rw [h.gaps_cons]
    refine List.pairwise_append.2 ⟨by split <;> simp, ih h.tail, ?_⟩
    intro loss hl loss' hl'
    have e := (mem_gaps h.tail hl').2.2.1
    split at hl
    case isFalse => cases hl
    case isTrue hne =>
      obtain rfl := List.mem_singleton.1 hl
      simp only
      omega

/-- The gaps have the bytes from `seqSo` on that no segment has and that are not behind all
segments. -/
theorem has_gaps (sn : ℕ) {seqSo : ℕ} {segs : List RlcSeg} (h : SegsFrom seqSo segs) (b : ℕ) :
    (∃ loss ∈ gaps sn segs seqSo, loss.soStart ≤ b ∧ b ≤ loss.soEnd) ↔
      seqSo ≤ b ∧ (∀ seg ∈ segs, ¬ seg.Has b) ∧ ∃ seg ∈ segs, b ≤ seg.soEnd := by
  induction segs generalizing seqSo with
  | nil => simp [gaps]
  | cons seg segs ih =>
    have h1 := h.start seg (.head _)
    have h2 := h.offsets seg (.head _)
    have h3 : ∀ s ∈ segs, seg.soEnd < s.so := fun s hs => List.rel_of_pairwise_cons h.ordered hs
    rw [h.gaps_cons]
    simp only [List.mem_append, or_and_right, exists_or, ih h.tail, List.forall_mem_cons,
      List.exists_mem_cons_iff, RlcSeg.Has]
    constructor
    · rintro (⟨loss, hl, e1, e2⟩ | ⟨e1, e2, s, hs, e3⟩)
      · split at hl
        case isFalse => cases hl
        case isTrue hne =>
          obtain rfl := List.mem_singleton.1 hl
          simp only at e1 e2
          exact ⟨e1, ⟨by omega, fun s hs => by have := h3 s hs; omega⟩, .inl (by omega)⟩
      · exact ⟨by omega, ⟨by omega, e2⟩, .inr ⟨s, hs, e3⟩⟩
    · rintro ⟨e1, ⟨e2, e3⟩, e4⟩
      rcases Nat.lt_or_ge b seg.so with hb | hb
      · refine .inl ⟨⟨sn, true, seqSo, seg.so - 1⟩, ?_, e1, by simp only; omega⟩
        rw [if_pos (by omega)]
        exact List.mem_singleton_self _
      · refine .inr ⟨by omega, e3, ?_⟩
        exact e4.resolve_left (by omega)

/-- No segment ends behind the last one. -/
theorem SegsFrom.soEnd_le_last {seqSo : ℕ} {segs : List RlcSeg} {seg last : RlcSeg}
    (h : SegsFrom seqSo segs) (hl : segs.getLast? = some last) (hs : seg ∈ segs) :
    seg.soEnd ≤ last.soEnd := by
  obtain ⟨init, rfl⟩ := List.getLast?_eq_some_iff.1 hl
  rcases List.mem_append.1 hs with hs | hs
  · have h1 : seg.soEnd < last.so :=
      (List.pairwise_append.1 h.ordered).2.2 seg hs last (List.mem_singleton_self _)
    have h2 := h.offsets last (by simp)
    omega
  · rw [List.mem_singleton.1 hs]

/-- The loss behind the segments, if the last segment of the SDU is not among them. -/
theorem RlcAmRecBuf.tailGap_eq {recBuf : RlcAmRecBuf} {last : RlcSeg} (sn : ℕ)
    (hl : recBuf.segLst.getLast? = some last) :
    tailGap sn recBuf.segLst =
      if last.si ≠ .last then [⟨sn, true, last.soEnd + 1, RLC_ALL_BYTES_MISSING⟩] else [] := by
  rw [tailGap, hl]
  simp only
  split
  case isFalse => rfl
  case isTrue hsi =>
    have h := (recBuf.offsets last (List.mem_of_getLast? hl)).2.2 hsi
    simp only [RLC_ALL_BYTES_MISSING] at h
    rw [Nat.mod_eq_of_lt (by omega)]

theorem mem_tailGap {recBuf : RlcAmRecBuf} {last : RlcSeg} {sn : ℕ} {loss : Loss}
    (hl : recBuf.segLst.getLast? = some last) :
    loss ∈ tailGap sn recBuf.segLst ↔
      last.si ≠ .last ∧ loss = ⟨sn, true, last.soEnd + 1, RLC_ALL_BYTES_MISSING⟩ := by
  rw [RlcAmRecBuf.tailGap_eq sn hl]
  split <;> simp_all

/-- A partly received SN: its segments are not empty, and its losses are the gaps. -/
theorem lossesSn_segs {recBuf : RlcAmRecBuf} {last : RlcSeg} (sn : ℕ) (hp : recBuf.pdu = none)
    (hl : recBuf.segLst.getLast? = some last) :
    lossesSn sn (some recBuf) = gaps sn recBuf.segLst 0 ++ tailGap sn recBuf.segLst := by
  have hne : recBuf.segLst ≠ [] := fun h => by simp [h] at hl
  rw [lossesSn, if_pos ⟨hp, List.length_pos_iff.2 hne⟩]

theorem lossesSn_of_not_segs {recBuf : RlcAmRecBuf} (sn : ℕ)
    (h : ¬ (recBuf.pdu = none ∧ recBuf.segLst ≠ [])) : lossesSn sn (some recBuf) = [] := by
  rw [lossesSn, if_neg fun hc => h ⟨hc.1, List.length_pos_iff.1 hc.2⟩]

/-- The losses of one SN: either the SN as a whole or gaps between its segments. -/
theorem lossesSn_cases (sn : ℕ) (recBuf : Option RlcAmRecBuf) :
    (recBuf = none ∧ lossesSn sn recBuf = [{ sn := sn }]) ∨
      (∃ rb, recBuf = some rb ∧ ¬ (rb.pdu = none ∧ rb.segLst ≠ []) ∧ lossesSn sn recBuf = []) ∨
      ∃ rb last, recBuf = some rb ∧ rb.pdu = none ∧ rb.segLst.getLast? = some last ∧
        lossesSn sn recBuf = gaps sn rb.segLst 0 ++ tailGap sn rb.segLst := by
  cases recBuf with
  | none => exact .inl ⟨rfl, rfl⟩
  | some rb =>
    by_cases h : rb.pdu = none ∧ rb.segLst ≠ []
    · obtain ⟨last, hl⟩ := Option.isSome_iff_exists.1 (List.getLast?_isSome.2 h.2)
      exact .inr (.inr ⟨rb, last, rfl, h.1, hl, lossesSn_segs sn h.1 hl⟩)
    · exact .inr (.inl ⟨rb, rfl, h, lossesSn_of_not_segs sn h⟩)

theorem mem_lossesSn {sn : ℕ} {recBuf : Option RlcAmRecBuf} {loss : Loss}
    (h : loss ∈ lossesSn sn recBuf) :
    loss.sn = sn ∧ loss.soStart ≤ loss.soEnd ∧ loss.soEnd ≤ RLC_ALL_BYTES_MISSING := by
  rcases lossesSn_cases sn recBuf with ⟨-, e⟩ | ⟨rb, -, -, e⟩ | ⟨rb, last, -, -, hl, e⟩
  · rw [e, List.mem_singleton] at h
    simp [h]
  · simp [e] at h
  · have hlast := rb.offsets last (List.mem_of_getLast? hl)
    rw [e, List.mem_append, mem_tailGap hl] at h
    rcases h with h | ⟨hsi, rfl⟩
    · obtain ⟨h1, -, -, h2, seg, hs, h3⟩ := mem_gaps rb.segsFrom h
      have h4 := rb.offsets seg hs
      exact ⟨h1, h2, by omega⟩
    · exact ⟨rfl, hlast.2.2 hsi, le_rfl⟩

theorem soStart_of_whole {sn : ℕ} {recBuf : Option RlcAmRecBuf} {loss : Loss}
    (h : loss ∈ lossesSn sn recBuf) (hw : loss.isSegment = false) : loss.soStart = 0 := by
  rcases lossesSn_cases sn recBuf with ⟨-, e⟩ | ⟨rb, -, -, e⟩ | ⟨rb, last, -, -, hl, e⟩
  · rw [e, List.mem_singleton] at h
    simp [h]
  · simp [e] at h
  · rw [e, List.mem_append, mem_tailGap hl] at h
    rcases h with h | ⟨-, rfl⟩
    · simp [(mem_gaps rb.segsFrom h).2.1] at hw
    · cases hw

/-- The losses of one SN come in the order of their offsets. -/
theorem lossesSn_pairwise (sn : ℕ) (recBuf : Option RlcAmRecBuf) :
    (lossesSn sn recBuf).Pairwise fun loss loss' =>
      loss.isSegment = true ∧ loss'.isSegment = true ∧ loss.soEnd < loss'.soStart := by
  rcases lossesSn_cases sn recBuf with ⟨-, e⟩ | ⟨rb, -, -, e⟩ | ⟨rb, last, -, -, hl, e⟩
  · simp [e]
  · simp [e]
  · rw [e, List.pairwise_append]
    refine ⟨?_, ?_, ?_⟩
    · refine List.Pairwise.imp_of_mem (fun h1 h2 h => ?_) (gaps_pairwise rb.segsFrom)
      exact ⟨(mem_gaps rb.segsFrom h1).2.1, (mem_gaps rb.segsFrom h2).2.1, h⟩
    · rw [rb.tailGap_eq sn hl]
      split <;> simp
    · intro loss h1 loss' h2
      obtain ⟨-, rfl⟩ := (mem_tailGap hl).1 h2
      obtain ⟨-, e1, -, -, seg, hs, e2⟩ := mem_gaps rb.segsFrom h1
      have e3 := rb.segsFrom.soEnd_le_last hl hs
      have e4 := rb.offsets seg hs
      exact ⟨e1, rfl, by simp only; omega⟩

theorem has_lossesSn (sn : ℕ) {b : ℕ} {recBuf : Option RlcAmRecBuf}
    (hb : b ≤ RLC_ALL_BYTES_MISSING) :
    (∃ loss ∈ lossesSn sn recBuf, loss.Has b) ↔ ∀ rb, recBuf = some rb → rb.Missing b := by
  rcases lossesSn_cases sn recBuf with ⟨rfl, e⟩ | ⟨rb, rfl, hc, e⟩ | ⟨rb, last, rfl, hp, hl, e⟩
  · simp [e, Loss.Has]
  · simp only [e, List.not_mem_nil, false_and, exists_false, Option.some.injEq, forall_eq', false_iff]
    exact fun h => hc ⟨h.1, h.2.1⟩
  · have hne : rb.segLst ≠ [] := fun h => by simp [h] at hl
    have hmem : last ∈ rb.segLst := List.mem_of_getLast? hl
    have hgaps : (∃ loss ∈ gaps sn rb.segLst 0, loss.Has b) ↔
        (∀ seg ∈ rb.segLst, ¬ seg.Has b) ∧ b ≤ last.soEnd := by
      have h1 : (∃ loss ∈ gaps sn rb.segLst 0, loss.Has b) ↔
          ∃ loss ∈ gaps sn rb.segLst 0, loss.soStart ≤ b ∧ b ≤ loss.soEnd :=
        exists_congr fun loss => and_congr_right fun h => by
          simp [Loss.Has, (mem_gaps rb.segsFrom h).2.1]
      rw [h1, has_gaps sn rb.segsFrom]
      constructor
      · rintro ⟨-, h2, seg, hs, h3⟩
        exact ⟨h2, h3.trans (rb.segsFrom.soEnd_le_last hl hs)⟩
      · exact fun ⟨h2, h3⟩ => ⟨Nat.zero_le _, h2, last, hmem, h3⟩
    simp only [e, List.mem_append, or_and_right, exists_or, hgaps, mem_tailGap hl,
      Option.some.injEq, forall_eq', RlcAmRecBuf.Missing, hl, hp, true_and]
    constructor
    · rintro (⟨h1, h2⟩ | ⟨loss, ⟨hsi, rfl⟩, h2⟩)
      · exact ⟨hne, h1, fun _ => h2⟩
      · have h3 : last.soEnd + 1 ≤ b := (h2 rfl).1
        refine ⟨hne, fun seg hs h4 => ?_, fun h => absurd h hsi⟩
        have := rb.segsFrom.soEnd_le_last hl hs
        have := h4.2
        omega
    · rintro ⟨-, h1, h2⟩
      by_cases hsi : last.si = .last
      · exact .inl ⟨h1, h2 hsi⟩
      · rcases Nat.lt_or_ge last.soEnd b with h3 | h3
        · exact .inr ⟨_, ⟨hsi, rfl⟩, fun _ => ⟨h3, hb⟩⟩
        · exact .inl ⟨h1, h3⟩

theorem lossesSn_eq_nil_iff (sn : ℕ) {recBuf : Option RlcAmRecBuf} :
    lossesSn sn recBuf = [] ↔ ∃ rb, recBuf = some rb ∧ rb.Complete := by
  rcases lossesSn_cases sn recBuf with ⟨rfl, e⟩ | ⟨rb, rfl, hc, e⟩ | ⟨rb, last, rfl, hp, hl, e⟩
  · simp [e]
  · simp only [e, Option.some.injEq, exists_eq_left', true_iff, RlcAmRecBuf.Complete]
    by_cases hp : rb.pdu = none
    · exact .inr (.inl (not_not.1 fun h => hc ⟨hp, h⟩))
    · exact .inl hp
  · have hne : rb.segLst ≠ [] := fun h => by simp [h] at hl
    simp only [e, List.append_eq_nil_iff, Option.some.injEq, exists_eq_left',
      RlcAmRecBuf.Complete, hp, hne, hl, ne_eq, not_true_eq_false, false_or]
    constructor
    · rintro ⟨h1, h2⟩
      have hsi : last.si = .last := by
        by_contra hsi
        simp [rb.tailGap_eq sn hl, hsi] at h2
      refine ⟨hsi, fun b hb => ?_⟩
      by_contra hno
      obtain ⟨loss, hmem, -⟩ := (has_gaps sn rb.segsFrom b).2
        ⟨Nat.zero_le _, fun seg hs h => hno ⟨seg, hs, h⟩, last, List.mem_of_getLast? hl, hb⟩
      simp [h1] at hmem
    · rintro ⟨hsi, hall⟩
      refine ⟨List.eq_nil_iff_forall_not_mem.2 fun loss hmem => ?_, by simp [rb.tailGap_eq sn hl, hsi]⟩
      obtain ⟨-, -, -, h1, -⟩ := mem_gaps rb.segsFrom hmem
      obtain ⟨-, h2, s, hs, h3⟩ := (has_gaps sn rb.segsFrom loss.soStart).1
        ⟨loss, hmem, le_rfl, h1⟩
      obtain ⟨s', hs', h4⟩ := hall loss.soStart (h3.trans (rb.segsFrom.soEnd_le_last hl hs))
      exact h2 s' hs' h4

/-! ## The losses of the whole scan -/

theorem mem_losses {amUl : RlcAmUl} {loss : Loss} :
    loss ∈ losses amUl ↔
      ∃ i < amUl.high, loss ∈ lossesSn (amUl.snAt i) (amUl.recBuf (amUl.snAt i)) := by
  simp [losses]

/-- A loss is in the losses of its SN, and its SN is one that the scan goes through. -/
theorem mem_losses_iff {amUl : RlcAmUl} {loss : Loss} :
    loss ∈ losses amUl ↔ loss.sn < amUl.snLen.modulus ∧ amUl.pos loss.sn < amUl.high ∧
      loss ∈ lossesSn loss.sn (amUl.recBuf loss.sn) := by
  rw [mem_losses]
  constructor
  · rintro ⟨i, hi, h⟩
    have e := (mem_lossesSn h).1
    have hp : amUl.pos (amUl.snAt i) = i := RlcAmUl.pos_snAt (hi.trans RlcAmUl.high_lt)
    exact ⟨e ▸ RlcAmUl.snAt_lt i, by rw [e, hp]; exact hi, by rwa [e]⟩
  · rintro ⟨h1, h2, h3⟩
    exact ⟨_, h2, by rwa [RlcAmUl.snAt_pos h1]⟩

/-- Everything of the earlier loss comes before everything of the later one. -/
def RlcAmUl.LossBefore (amUl : RlcAmUl) (loss loss' : Loss) : Prop :=
  amUl.pos loss.sn < amUl.pos loss'.sn ∨
    (loss.sn = loss'.sn ∧ loss.isSegment = true ∧ loss'.isSegment = true ∧
      loss.soEnd < loss'.soStart)

theorem losses_pairwise (amUl : RlcAmUl) : (losses amUl).Pairwise amUl.LossBefore := by
  rw [losses, List.pairwise_flatMap]
  constructor
  · intro i _
    refine (lossesSn_pairwise _ _).imp_of_mem fun h1 h2 h => ?_
    exact .inr ⟨(mem_lossesSn h1).1.trans (mem_lossesSn h2).1.symm, h⟩
  · refine List.pairwise_lt_range.imp_of_mem fun {i j} hi hj hij => ?_
    intro loss h1 loss' h2
    have hi := (List.mem_range.1 hi).trans RlcAmUl.high_lt
    have hj := (List.mem_range.1 hj).trans RlcAmUl.high_lt
    left
    rwa [(mem_lossesSn h1).1, (mem_lossesSn h2).1, RlcAmUl.pos_snAt hi, RlcAmUl.pos_snAt hj]

theorem missing_iff {amUl : RlcAmUl} {sn b : ℕ} (hsn : sn < amUl.snLen.modulus)
    (hp : amUl.pos sn < amUl.high) :
    amUl.Missing sn b ↔
      b ≤ RLC_ALL_BYTES_MISSING ∧ ∃ loss ∈ losses amUl, loss.sn = sn ∧ loss.Has b := by
  refine and_congr_right fun hb => ?_
  rw [← has_lossesSn sn hb]
  constructor
  · rintro ⟨loss, h1, h2⟩
    obtain rfl := (mem_lossesSn h1).1
    exact ⟨loss, mem_losses_iff.2 ⟨hsn, hp, h1⟩, rfl, h2⟩
  · rintro ⟨loss, h1, rfl, h2⟩
    exact ⟨loss, (mem_losses_iff.1 h1).2.2, h2⟩

theorem not_fullyReceived_iff {amUl : RlcAmUl} {sn : ℕ} (hsn : sn < amUl.snLen.modulus)
    (hp : amUl.pos sn < amUl.high) :
    ¬ amUl.FullyReceived sn ↔ ∃ loss ∈ losses amUl, loss.sn = sn := by
  rw [RlcAmUl.FullyReceived, ← lossesSn_eq_nil_iff sn, List.eq_nil_iff_forall_not_mem]
  simp only [not_forall, not_not]
  constructor
  · rintro ⟨loss, h⟩
    obtain rfl := (mem_lossesSn h).1
    exact ⟨loss, mem_losses_iff.2 ⟨hsn, hp, h⟩, rfl⟩
  · rintro ⟨loss, h, rfl⟩
    exact ⟨loss, (mem_losses_iff.1 h).2.2⟩

end OaiCu.OduRlc
