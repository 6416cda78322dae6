import OaiCu.OduRlc.StatusPdu
import OaiCu.OduRlc.StatusDecode

/-!
# What is sent as a STATUS is what is received

The octets that `rlcAmmCreateStatusPdu` writes spell the fields that `rlcAmmUlHndlStatusPdu`
reads. The flag E1 of a NACK is only set when the next one is written, so the buffer is
described as the octets before the last NACK and the last NACK itself.
-/

namespace OaiCu.OduRlc

open BitStream

/-! ## Writing -/

/-- The buffer starts with these octets. -/
def CntrlPdu.Starts (cntrlPdu : CntrlPdu) (l : List UInt8) : Prop := l <+: cntrlPdu.toList

section

variable {cntrlPdu : CntrlPdu} {l r : List UInt8} {i : ℕ} {x octet : UInt8}

theorem CntrlPdu.Starts.length_le (h : cntrlPdu.Starts l) : l.length ≤ RLC_MAX_CNTRL_FIELDS := by
  have := List.IsPrefix.length_le h
  rwa [Vector.length_toList] at this

theorem set_prefix {l r t : List UInt8} (h : l ++ x :: r <+: t) (octet : UInt8) :
    l ++ octet :: r <+: t.set l.length octet := by
  obtain ⟨tail, rfl⟩ := h
  refine ⟨tail, ?_⟩
  simp

theorem starts_put_mid (h : cntrlPdu.Starts (l ++ x :: r)) (hi : l.length = i) (octet : UInt8) :
    ∃ cntrlPdu', cntrlPdu.put i octet = some cntrlPdu' ∧ cntrlPdu'.Starts (l ++ octet :: r) := by
  have hlt : i < RLC_MAX_CNTRL_FIELDS := by
    have := h.length_le
    rw [List.length_append, List.length_cons] at this
    omega
  refine ⟨_, dif_pos hlt, ?_⟩
  rw [CntrlPdu.Starts, Vector.toList_set, ← hi]
  exact set_prefix h octet

theorem starts_put (h : cntrlPdu.Starts l) (hi : l.length = i) (hlt : i < RLC_MAX_CNTRL_FIELDS)
    (octet : UInt8) :
    ∃ cntrlPdu', cntrlPdu.put i octet = some cntrlPdu' ∧ cntrlPdu'.Starts (l ++ [octet]) := by
  obtain ⟨t, ht⟩ := h
  cases t with
  | nil =>
      have hlen := congrArg List.length ht
      rw [List.append_nil, Vector.length_toList] at hlen
      omega
  | cons y t => exact starts_put_mid ⟨t, by simpa using ht⟩ hi octet

theorem starts_putOr (h : cntrlPdu.Starts (l ++ x :: r)) (hi : l.length = i) (octet : UInt8) :
    ∃ cntrlPdu', cntrlPdu.putOr i octet = some cntrlPdu' ∧
      cntrlPdu'.Starts (l ++ (x ||| octet) :: r) := by
  have hlt : i < RLC_MAX_CNTRL_FIELDS := by
    have := h.length_le
    rw [List.length_append, List.length_cons] at this
    omega
  have hx : cntrlPdu[i] = x := by
    obtain ⟨t, ht⟩ := h
    have hget : cntrlPdu.toList[i]? = some x := by
      rw [← ht, ← hi]
      simp
    rw [Vector.getElem?_toList, Vector.getElem?_eq_getElem hlt] at hget
    exact Option.some.inj hget
  refine ⟨_, dif_pos hlt, ?_⟩
  rw [CntrlPdu.Starts, Vector.toList_set, hx]
  subst hi
  exact set_prefix h _

end

/-! ## The octets of a NACK -/

/-- The NACK_SN: the octets before the last one, and the last one without flags. -/
def snHead (snLen : SnLen) (sn : ℕ) : List UInt8 :=
  match snLen with
  | .bits12 => [.ofNat ((sn &&& 0xFF0) >>> 4)]
  | .bits18 => [.ofNat ((sn &&& 0x3FC00) >>> 10), .ofNat ((sn &&& 0x3FC) >>> 2)]

def snLast (snLen : SnLen) (sn : ℕ) : UInt8 :=
  match snLen with
  | .bits12 => .ofNat ((sn &&& 0xF) <<< 4)
  | .bits18 => .ofNat ((sn &&& 0x3) <<< 6)

def soOctets (nack : RlcNackInfo) : List UInt8 :=
  if nack.isSegment then
    [.ofNat (nack.soStart >>> 8), .ofNat nack.soStart, .ofNat (nack.soEnd >>> 8),
      .ofNat nack.soEnd]
  else []

def rangeOctets (nack : RlcNackInfo) : List UInt8 :=
  if nack.nackRange ≠ 0 then [.ofNat nack.nackRange] else []

def flag (b : Bool) (octet : UInt8) : UInt8 := if b then octet else 0

/-- The last octet of the NACK_SN. -/
def lastOf (snLen : SnLen) (e1 : Bool) (nack : RlcNackInfo) : UInt8 :=
  snLast snLen nack.sn ||| flag nack.isSegment snLen.e2 |||
    flag (nack.nackRange ≠ 0) snLen.e3 ||| flag e1 snLen.e1

def nackBytes (snLen : SnLen) (e1 : Bool) (nack : RlcNackInfo) : List UInt8 :=
  snHead snLen nack.sn ++ lastOf snLen e1 nack :: (soOctets nack ++ rangeOctets nack)

section

variable {snLen : SnLen} {nack : RlcNackInfo} {cntrlPdu : CntrlPdu} {l : List UInt8} {encIdx : ℕ}

theorem snHead_length (snLen : SnLen) (sn : ℕ) :
    (snHead snLen sn).length = snLen.nackSnSize - 1 := by
  cases snLen <;> rfl

theorem nackBytes_length (snLen : SnLen) (e1 : Bool) (nack : RlcNackInfo) :
    (nackBytes snLen e1 nack).length = nackOctets snLen nack := by
  have := nackSnSize_bounds snLen
  simp only [nackBytes, List.length_append, List.length_cons, snHead_length, soOctets, rangeOctets,
    nackOctets]
  split_ifs <;> simp <;> omega

theorem starts_putNackSn (h : cntrlPdu.Starts l) (hl : l.length = encIdx)
    (hfit : encIdx + snLen.nackSnSize ≤ RLC_MAX_CNTRL_FIELDS) (sn : ℕ) :
    ∃ cntrlPdu', putNackSn snLen encIdx sn cntrlPdu = some cntrlPdu' ∧
      cntrlPdu'.Starts (l ++ (snHead snLen sn ++ [snLast snLen sn])) := by
  cases snLen <;> simp only [SnLen.nackSnSize] at hfit
  · obtain ⟨b1, e1, h1⟩ := starts_put h hl (by omega) (.ofNat ((sn &&& 0xFF0) >>> 4))
    obtain ⟨b2, e2, h2⟩ := starts_put (i := encIdx + 1) h1 (by simp [hl]) (by omega)
      (.ofNat ((sn &&& 0xF) <<< 4))
    refine ⟨b2, ?_, by simpa [snHead, snLast] using h2⟩
    simp only [putNackSn, e1, e2, Option.bind_eq_bind, Option.bind_some]
  · obtain ⟨b1, e1, h1⟩ := starts_put h hl (by omega) (.ofNat ((sn &&& 0x3FC00) >>> 10))
    obtain ⟨b2, e2, h2⟩ := starts_put (i := encIdx + 1) h1 (by simp [hl]) (by omega)
      (.ofNat ((sn &&& 0x3FC) >>> 2))
    obtain ⟨b3, e3, h3⟩ := starts_put (i := encIdx + 2) h2 (by simp [hl]) (by omega)
      (.ofNat ((sn &&& 0x3) <<< 6))
    refine ⟨b3, ?_, by simpa [snHead, snLast] using h3⟩
    simp only [putNackSn, e1, e2, e3, Option.bind_eq_bind, Option.bind_some]

/-- A flag in the last octet of the NACK_SN. -/
theorem starts_flag {x : UInt8} {r : List UInt8} {head : List UInt8}
    (h : cntrlPdu.Starts (l ++ (head ++ x :: r))) (hl : l.length = encIdx)
    (hhead : head.length = snLen.nackSnSize - 1) (octet : UInt8) :
    ∃ cntrlPdu', cntrlPdu.putOr (encIdx + (snLen.nackSnSize - 1)) octet = some cntrlPdu' ∧
      cntrlPdu'.Starts (l ++ (head ++ (x ||| octet) :: r)) := by
  rw [← List.append_assoc] at h ⊢
  exact starts_putOr h (by rw [List.length_append, hl, hhead]) octet

theorem starts_putSo {x : UInt8} {head : List UInt8}
    (h : cntrlPdu.Starts (l ++ (head ++ [x]))) (hl : l.length = encIdx)
    (hhead : head.length = snLen.nackSnSize - 1)
    (hfit : encIdx + nackOctets snLen nack ≤ RLC_MAX_CNTRL_FIELDS) :
    ∃ cntrlPdu', putSo snLen encIdx nack cntrlPdu = some cntrlPdu' ∧
      cntrlPdu'.Starts (l ++ (head ++ (x ||| flag nack.isSegment snLen.e2) :: soOctets nack)) := by
  have hsize := nackSnSize_bounds snLen
  have hlen : (l ++ (head ++ [x ||| snLen.e2])).length = encIdx + snLen.nackSnSize := by
    simp only [List.length_append, hl, hhead, List.length_singleton]
    omega
  rw [nackOctets] at hfit
  rw [putSo, soOctets, flag]
  split
  case isFalse hs => exact ⟨cntrlPdu, rfl, by simpa using h⟩
  case isTrue hs =>
    rw [if_pos hs] at hfit
    obtain ⟨b0, e0, h0⟩ := starts_flag h hl hhead snLen.e2
    obtain ⟨b1, e1, h1⟩ := starts_put h0 hlen (by omega) (.ofNat (nack.soStart >>> 8))
    obtain ⟨b2, e2, h2⟩ := starts_put (i := encIdx + snLen.nackSnSize + 1) h1
      (by simp only [List.length_append, List.length_singleton] at hlen ⊢; omega) (by omega)
      (.ofNat nack.soStart)
    obtain ⟨b3, e3, h3⟩ := starts_put (i := encIdx + snLen.nackSnSize + 2) h2
      (by simp only [List.length_append, List.length_singleton] at hlen ⊢; omega) (by omega)
      (.ofNat (nack.soEnd >>> 8))
    obtain ⟨b4, e4, h4⟩ := starts_put (i := encIdx + snLen.nackSnSize + 3) h3
      (by simp only [List.length_append, List.length_singleton] at hlen ⊢; omega) (by omega)
      (.ofNat nack.soEnd)
    refine ⟨b4, ?_, by simpa using h4⟩
    simp only [e0, e1, e2, e3, e4, Option.bind_eq_bind, Option.bind_some]

theorem starts_putRange {x : UInt8} {head : List UInt8}
    (h : cntrlPdu.Starts (l ++ (head ++ x :: soOctets nack))) (hl : l.length = encIdx)
    (hhead : head.length = snLen.nackSnSize - 1)
    (hfit : encIdx + nackOctets snLen nack ≤ RLC_MAX_CNTRL_FIELDS) :
    ∃ cntrlPdu', putRange snLen encIdx nack cntrlPdu = some cntrlPdu' ∧
      cntrlPdu'.Starts (l ++ (head ++ (x ||| flag (nack.nackRange ≠ 0) snLen.e3) ::
        (soOctets nack ++ rangeOctets nack))) := by
  have hsize := nackSnSize_bounds snLen
  have hso : (soOctets nack).length = if nack.isSegment then 4 else 0 := by
    rw [soOctets]
    split <;> rfl
  rw [nackOctets] at hfit
  rw [putRange, rangeOctets, flag]
  by_cases hr : nack.nackRange = 0
  case pos =>
    refine ⟨cntrlPdu, by rw [if_neg (by simpa using hr)], ?_⟩
    simpa [hr] using h
  case neg =>
    rw [if_pos hr] at hfit
    obtain ⟨b0, e0, h0⟩ := starts_flag h hl hhead snLen.e3
    obtain ⟨b1, e1, h1⟩ := starts_put
      (i := encIdx + snLen.nackSnSize + if nack.isSegment then 4 else 0) h0
      (by simp only [List.length_append, List.length_cons, hl, hhead, hso]; omega) (by omega)
      (.ofNat nack.nackRange)
    refine ⟨b1, ?_, by simpa [hr] using h1⟩
    simp only [hr, ne_eq, not_false_eq_true, if_true, e0, e1, Option.bind_eq_bind, Option.bind_some]

/-- **A NACK is written behind what is there.** -/
theorem starts_putNack (h : cntrlPdu.Starts l) (hl : l.length = encIdx)
    (hfit : encIdx + nackOctets snLen nack ≤ RLC_MAX_CNTRL_FIELDS) :
    ∃ cntrlPdu', putNack snLen encIdx nack cntrlPdu = some cntrlPdu' ∧
      cntrlPdu'.Starts (l ++ nackBytes snLen false nack) := by
  have hsize := (nackOctets_bounds snLen nack).1
  have hhead := snHead_length snLen nack.sn
  obtain ⟨b1, e1, h1⟩ := @starts_putNackSn snLen _ _ _ h hl (by omega) nack.sn
  obtain ⟨b2, e2, h2⟩ := starts_putSo h1 hl hhead hfit
  obtain ⟨b3, e3, h3⟩ := starts_putRange h2 hl hhead hfit
  refine ⟨b3, ?_, ?_⟩
  · simp only [putNack, e1, e2, e3, Option.bind_eq_bind, Option.bind_some]
  · simpa [nackBytes, lastOf, flag] using h3

/-- E1 of the last NACK is set when there is another one. -/
theorem starts_putPrevE1 {prevEncIdx : ℕ}
    (h : cntrlPdu.Starts (l ++ nackBytes snLen false nack)) (hl : l.length = prevEncIdx)
    (h0 : prevEncIdx ≠ 0) :
    ∃ cntrlPdu', putPrevE1 snLen prevEncIdx cntrlPdu = some cntrlPdu' ∧
      cntrlPdu'.Starts (l ++ nackBytes snLen true nack) := by
  obtain ⟨b, e, h'⟩ := starts_flag h hl (snHead_length snLen nack.sn) snLen.e1
  refine ⟨b, by rw [putPrevE1, if_pos h0, e], ?_⟩
  simpa [nackBytes, lastOf, flag, UInt8.or_assoc] using h'

end

/-! ## The loop over the NACKs -/

/-- The NACKs with their flags: every one but the last has another one behind it. -/
def nacksBytes (snLen : SnLen) : List RlcNackInfo → List UInt8
  | [] => []
  | nack :: nacks => nackBytes snLen (!nacks.isEmpty) nack ++ nacksBytes snLen nacks

theorem nacksBytes_snoc (snLen : SnLen) (nacks : List RlcNackInfo) (nack : RlcNackInfo) :
    nacksBytes snLen (nacks ++ [nack]) =
      nacks.flatMap (nackBytes snLen true) ++ nackBytes snLen false nack := by
  induction nacks with
  | nil => simp [nacksBytes]
  | cons nack' nacks ih =>
      have hflag : (!(nacks ++ [nack]).isEmpty) = true := by cases nacks <;> rfl
      rw [List.cons_append, nacksBytes, hflag, ih, List.flatMap_cons, List.append_assoc]

/-- The octets of a STATUS PDU with these NACKs. -/
def statusOctets (snLen : SnLen) (nacks : List RlcNackInfo) : ℕ :=
  RLC_CNTRL_PDU_FIXED_HDRSZ + (nacks.map (nackOctets snLen)).sum

theorem statusOctets_snoc (snLen : SnLen) (nacks : List RlcNackInfo) (nack : RlcNackInfo) :
    statusOctets snLen (nacks ++ [nack]) = statusOctets snLen nacks + nackOctets snLen nack := by
  simp [statusOctets, Nat.add_assoc]

theorem flatMap_length (snLen : SnLen) (e1 : Bool) (nacks : List RlcNackInfo) :
    (nacks.flatMap (nackBytes snLen e1)).length = (nacks.map (nackOctets snLen)).sum := by
  simp [List.length_flatMap, nackBytes_length]

theorem nacksBytes_length (snLen : SnLen) (nacks : List RlcNackInfo) :
    (nacksBytes snLen nacks).length = (nacks.map (nackOctets snLen)).sum := by
  induction nacks with
  | nil => rfl
  | cons nack nacks ih =>
      rw [nacksBytes, List.length_append, nackBytes_length, ih, List.map_cons, List.sum_cons]

theorem statusOctets_le (snLen : SnLen) (nacks : List RlcNackInfo) :
    statusOctets snLen nacks ≤ 3 + 8 * nacks.length := by
  induction nacks using List.reverseRecOn with
  | nil => rfl
  | append_singleton nacks nack ih =>
      have := (nackOctets_bounds snLen nack).2
      rw [statusOctets_snoc, List.length_append, List.length_singleton]
      omega

/-- E1 in the third octet. -/
def SnLen.e1Ack : SnLen → UInt8
  | .bits12 => 0x80
  | .bits18 => 0x2

/-- The first three octets without ACK_SN. -/
def front (snLen : SnLen) (e1 : Bool) : List UInt8 := [0, 0, flag e1 snLen.e1Ack]

/-- The encoder with the NACKs `done` behind it. -/
structure Encoder.Wrote (snLen : SnLen) (e1 : Bool) (done : List RlcNackInfo) (c : Encoder) :
    Prop where
  starts : c.cntrlPdu.Starts (front snLen e1 ++ nacksBytes snLen done)
  bytesToEncode : c.bytesToEncode = c.encIdx
  encIdx : c.encIdx = statusOctets snLen done
  first : done = [] → c.prevEncIdx = 0
  prevEncIdx : ∀ init last, done = init ++ [last] → c.prevEncIdx = statusOctets snLen init

section

variable {snLen : SnLen} {e1 : Bool} {done : List RlcNackInfo} {nack : RlcNackInfo} {c : Encoder}

/-- The next NACK, with E1 in the one before. -/
theorem Encoder.Wrote.next (h : c.Wrote snLen e1 done)
    (hfit : statusOctets snLen (done ++ [nack]) ≤ RLC_MAX_CNTRL_FIELDS) :
    ∃ cntrlPdu cntrlPdu', putPrevE1 snLen c.prevEncIdx c.cntrlPdu = some cntrlPdu ∧
      putNack snLen c.encIdx nack cntrlPdu = some cntrlPdu' ∧
      cntrlPdu'.Starts (front snLen e1 ++ nacksBytes snLen (done ++ [nack])) := by
  have hprev : ∃ cntrlPdu, putPrevE1 snLen c.prevEncIdx c.cntrlPdu = some cntrlPdu ∧
      cntrlPdu.Starts (front snLen e1 ++ done.flatMap (nackBytes snLen true)) := by
    rcases List.eq_nil_or_concat done with rfl | ⟨init, last, rfl⟩
    · exact ⟨c.cntrlPdu, by rw [h.first rfl]; rfl, h.starts⟩
    · have hstarts := h.starts
      rw [List.concat_eq_append, nacksBytes_snoc, ← List.append_assoc] at hstarts
      have hpos := h.prevEncIdx init last (List.concat_eq_append ..)
      have hlen : (front snLen e1 ++ init.flatMap (nackBytes snLen true)).length = c.prevEncIdx := by
        rw [hpos, List.length_append, flatMap_length]
        rfl
      have hne : c.prevEncIdx ≠ 0 := by
        rw [hpos, statusOctets, RLC_CNTRL_PDU_FIXED_HDRSZ]
        omega
      obtain ⟨b, hb, hb'⟩ := starts_putPrevE1 hstarts hlen hne
      refine ⟨b, hb, ?_⟩
      simpa using hb'
  obtain ⟨b1, hb1, h1⟩ := hprev
  rw [statusOctets_snoc] at hfit
  have hlen : (front snLen e1 ++ done.flatMap (nackBytes snLen true)).length = c.encIdx := by
    rw [h.encIdx, List.length_append, flatMap_length]
    rfl
  have hroom : c.encIdx + nackOctets snLen nack ≤ RLC_MAX_CNTRL_FIELDS := by
    rw [h.encIdx]
    exact hfit
  obtain ⟨b2, hb2, h2⟩ := starts_putNack h1 hlen hroom
  refine ⟨b1, b2, hb1, hb2, ?_⟩
  rwa [nacksBytes_snoc, ← List.append_assoc]

/-- E1 in the third octet goes with the first NACK. -/
theorem Encoder.Wrote.clearE1 (h : c.Wrote snLen true done) :
    ∃ cntrlPdu, clearE1 snLen done.length c.cntrlPdu = some cntrlPdu ∧
      cntrlPdu.Starts (front snLen (!done.isEmpty) ++ nacksBytes snLen done) := by
  cases done with
  | cons nack nacks => exact ⟨c.cntrlPdu, rfl, h.starts⟩
  | nil =>
      have hstarts : c.cntrlPdu.Starts ([0, 0] ++ flag true snLen.e1Ack :: []) := h.starts
      have hget : c.cntrlPdu[2]? = some (flag true snLen.e1Ack) := by
        obtain ⟨t, ht⟩ := hstarts
        rw [← Vector.getElem?_toList, ← ht]
        rfl
      obtain ⟨b, hb, hb'⟩ := starts_put_mid hstarts rfl 0
      refine ⟨b, ?_, hb'⟩
      cases snLen with
      | bits12 => exact hb
      | bits18 =>
          simp only [OduRlc.clearE1, List.length_nil, if_true, hget, Option.bind_some]
          exact hb

/-- How far the loop comes: as far as there is room. -/
structure Reach (snLen : SnLen) (nacks : List RlcNackInfo) (pduSz : ℤ) (k : ℕ) : Prop where
  le_length : k ≤ nacks.length
  room : (statusOctets snLen (nacks.take k) : ℤ) ≤ pduSz
  longest : ∀ j ≤ nacks.length, (statusOctets snLen (nacks.take j) : ℤ) ≤ pduSz → j ≤ k

theorem statusOctets_take_le (snLen : SnLen) (nacks : List RlcNackInfo) {i j : ℕ} (h : i ≤ j) :
    statusOctets snLen (nacks.take i) ≤ statusOctets snLen (nacks.take j) := by
  obtain ⟨d, rfl⟩ := Nat.exists_eq_add_of_le h
  rw [List.take_add, statusOctets, statusOctets, List.map_append, List.sum_append]
  omega

theorem RlcUdxDlStaPdu.nacks_length {pStaPdu : RlcUdxDlStaPdu}
    (h : pStaPdu.nackCount ≤ RLC_MAX_NACK_CNT) : pStaPdu.nacks.length = pStaPdu.nackCount := by
  simp [RlcUdxDlStaPdu.nacks, h]

theorem not_isEmpty {α : Type*} (l : List α) : (!l.isEmpty) = decide (l.length ≠ 0) := by
  cases l <;> simp

/-- **The loop writes the longest prefix that has room**, and takes ACK_SN from the first NACK
left out. -/
theorem encodeNacks_spec {pStaPdu : RlcUdxDlStaPdu} {pduSz : ℤ}
    (hc : pStaPdu.nackCount ≤ RLC_MAX_NACK_CNT) {left nkCnt : ℕ}
    (hl : nkCnt + left = pStaPdu.nackCount)
    (hroom : (statusOctets snLen (pStaPdu.nacks.take nkCnt) : ℤ) ≤ pduSz)
    (h : c.Wrote snLen (!pStaPdu.nacks.isEmpty) (pStaPdu.nacks.take nkCnt)) :
    ∃ k c', encodeNacks snLen pStaPdu pduSz left nkCnt c = some c' ∧
      Reach snLen pStaPdu.nacks pduSz k ∧
      c'.cntrlPdu.Starts (front snLen (decide (k ≠ 0)) ++ nacksBytes snLen (pStaPdu.nacks.take k)) ∧
      c'.encIdx = statusOctets snLen (pStaPdu.nacks.take k) ∧
      c'.ackSn = (pStaPdu.nacks[k]?.map (·.sn)).getD c.ackSn := by
  have hlen := RlcUdxDlStaPdu.nacks_length hc
  induction left generalizing nkCnt c with
  | zero =>
      have hk : nkCnt = pStaPdu.nacks.length := by omega
      have hflag : (!pStaPdu.nacks.isEmpty) = decide (nkCnt ≠ 0) := by rw [not_isEmpty, hk]
      refine ⟨nkCnt, c, rfl, ⟨hk.le, hroom, fun j hj _ => hk ▸ hj⟩, ?_, h.encIdx, ?_⟩
      · rw [← hflag]
        exact h.starts
      · rw [List.getElem?_eq_none hk.ge]
        rfl
  | succ left ih =>
      have hlt : nkCnt < RLC_MAX_NACK_CNT := by omega
      have hlt' : nkCnt < pStaPdu.nacks.length := by omega
      have hread : pStaPdu.nackInfo[nkCnt]? = some pStaPdu.nacks[nkCnt] := by
        rw [← Vector.getElem?_toList]
        simp only [RlcUdxDlStaPdu.nacks, List.getElem_take]
        exact List.getElem?_eq_getElem _
      have htake : pStaPdu.nacks.take (nkCnt + 1) =
          pStaPdu.nacks.take nkCnt ++ [pStaPdu.nacks[nkCnt]] := by simp
      have hsize := statusOctets_snoc snLen (pStaPdu.nacks.take nkCnt) pStaPdu.nacks[nkCnt]
      rw [← htake] at hsize
      have hbound := statusOctets_le snLen (pStaPdu.nacks.take (nkCnt + 1))
      have hbytes : (c.bytesToEncode + nackOctets snLen pStaPdu.nacks[nkCnt]) % 2 ^ 16 =
          statusOctets snLen (pStaPdu.nacks.take (nkCnt + 1)) := by
        rw [h.bytesToEncode, h.encIdx, ← hsize]
        refine Nat.mod_eq_of_lt ?_
        simp only [List.length_take, RLC_MAX_NACK_CNT] at hbound hlt
        omega
      simp only [encodeNacks, hread, Option.bind_eq_bind, Option.bind_some, hbytes]
      split
      case isTrue hfits =>
        have hmax : statusOctets snLen (pStaPdu.nacks.take nkCnt ++ [pStaPdu.nacks[nkCnt]]) ≤
            RLC_MAX_CNTRL_FIELDS := by
          rw [← htake]
          simp only [List.length_take, RLC_MAX_NACK_CNT, RLC_MAX_CNTRL_FIELDS] at hbound hc ⊢
          omega
        obtain ⟨b1, b2, hb1, hb2, hb⟩ := h.next hmax
        rw [hb1, Option.bind_some, hb2, Option.bind_some]
        refine ih (by omega) hfits ⟨?_, rfl, rfl, fun hnil => ?_, fun init last hsnoc => ?_⟩
        · rw [htake]
          exact hb
        · rw [htake] at hnil
          exact absurd hnil (List.append_ne_nil_of_right_ne_nil _ (List.cons_ne_nil _ _))
        · rw [htake] at hsnoc
          obtain ⟨rfl, -⟩ := List.append_inj' hsnoc rfl
          exact h.encIdx
      case isFalse hfits =>
        have hflag : (!pStaPdu.nacks.isEmpty) = true := by
          rw [not_isEmpty]
          exact decide_eq_true (by omega)
        rw [hflag] at h
        obtain ⟨b, hb, hb'⟩ := h.clearE1
        have hdone : (pStaPdu.nacks.take nkCnt).length = nkCnt := by
          rw [List.length_take]
          omega
        have hempty : (!(pStaPdu.nacks.take nkCnt).isEmpty) = decide (nkCnt ≠ 0) := by
          rw [not_isEmpty, hdone]
        rw [hdone] at hb
        rw [hempty] at hb'
        rw [hb, Option.bind_some]
        refine ⟨nkCnt, _, rfl, ⟨hlt'.le, hroom, fun j hj hfit => ?_⟩, hb', h.encIdx, ?_⟩
        · by_contra hgt
          have := statusOctets_take_le snLen pStaPdu.nacks (show nkCnt + 1 ≤ j by omega)
          omega
        · rw [List.getElem?_eq_getElem hlt']
          rfl

end

/-! ## The bits of the octets -/

/-- The bits below the NACK_SN in its last octet. -/
def SnLen.lastBits : SnLen → ℕ
  | .bits12 => 4
  | .bits18 => 6

theorem flags_toNat (snLen : SnLen) (e1 e2 e3 : Bool) :
    (flag e2 snLen.e2 ||| flag e3 snLen.e3 ||| flag e1 snLen.e1).toNat < 2 ^ snLen.lastBits ∧
      bitsOf snLen.lastBits (flag e2 snLen.e2 ||| flag e3 snLen.e3 ||| flag e1 snLen.e1).toNat =
        [e1, e2, e3] ++ bitsOf snLen.resrvdBitsNackSn 0 := by
  cases snLen <;> cases e1 <;> cases e2 <;> cases e3 <;> decide

theorem bitsOf_bool (b : Bool) : bitsOf 1 b.toNat = [b] := by cases b <;> rfl

/-- NACK_SN and its flags. -/
theorem sn_bits (snLen : SnLen) (e1 e2 e3 : Bool) (sn : ℕ) :
    bytesBits (snHead snLen sn ++ [snLast snLen sn ||| flag e2 snLen.e2 ||| flag e3 snLen.e3 |||
        flag e1 snLen.e1]) =
      bitsOf snLen.bits sn ++ ([e1, e2, e3] ++ bitsOf snLen.resrvdBitsNackSn 0) := by
  obtain ⟨h1, h2⟩ := flags_toNat snLen e1 e2 e3
  rw [UInt8.or_assoc, UInt8.or_assoc, ← UInt8.or_assoc (flag e2 snLen.e2)]
  rw [bytesBits_append, bytesBits_cons, bytesBits_nil, List.append_nil]
  generalize flag e2 snLen.e2 ||| flag e3 snLen.e3 ||| flag e1 snLen.e1 = flags at h1 h2
  cases snLen with
  | bits12 =>
      have hhigh : bitsOf 8 ((sn &&& 0xFF0) >>> 4) = bitsOf 8 (sn >>> 4) :=
        bitsOf_and (by decide) sn
      have hlow : bitsOf 4 ((sn &&& 0xF) >>> 0) = bitsOf 4 (sn >>> 0) := bitsOf_and (by decide) sn
      have hlast := byteBits_or (by decide) (sn &&& 0xF) h1
      rw [h2] at hlast
      simp only [snHead, snLast, bytesBits_cons, bytesBits_nil, List.append_nil, byteBits_ofNat,
        hhigh]
      rw [show SnLen.bits .bits12 = 8 + 4 from rfl, bitsOf_add, List.append_assoc]
      congr 1
      exact hlast.trans (congrArg (· ++ _) hlow)
  | bits18 =>
      have hhigh : bitsOf 8 ((sn &&& 0x3FC00) >>> 10) = bitsOf 8 (sn >>> 10) :=
        bitsOf_and (by decide) sn
      have hmid : bitsOf 8 ((sn &&& 0x3FC) >>> 2) = bitsOf 8 (sn >>> 2) :=
        bitsOf_and (by decide) sn
      have hlow : bitsOf 2 ((sn &&& 0x3) >>> 0) = bitsOf 2 (sn >>> 0) := bitsOf_and (by decide) sn
      have hlast := byteBits_or (by decide) (sn &&& 0x3) h1
      rw [h2] at hlast
      simp only [snHead, snLast, bytesBits_cons, bytesBits_nil, List.append_nil, byteBits_ofNat,
        hhigh, hmid]
      rw [show SnLen.bits .bits18 = 8 + (8 + 2) from rfl, bitsOf_add, bitsOf_add 8 2,
        List.append_assoc, List.append_assoc, List.append_assoc]
      congr 2
      exact hlast.trans (congrArg (· ++ _) hlow)

theorem octet_pair (x : ℕ) : bytesBits [.ofNat (x >>> 8), .ofNat x] = bitsOf 16 x := by
  rw [bytesBits_cons, bytesBits_cons, bytesBits_nil, List.append_nil, byteBits_ofNat,
    byteBits_ofNat, ← bitsOf_add]

theorem nackBytes_bits (snLen : SnLen) (e1 : Bool) (nack : RlcNackInfo) :
    bytesBits (nackBytes snLen e1 nack) = nackBits snLen e1 nack := by
  have hso : bytesBits (soOctets nack) = soBits nack := by
    rw [soOctets, soBits]
    split
    · rw [← octet_pair, ← octet_pair, ← bytesBits_append]
      rfl
    · rfl
  have hrange : bytesBits (rangeOctets nack) = rangeBits nack := by
    rw [rangeOctets, rangeBits]
    split
    · rw [bytesBits_cons, bytesBits_nil, List.append_nil, byteBits_ofNat]
    · rfl
  rw [nackBytes, List.append_cons, bytesBits_append, lastOf, sn_bits, bytesBits_append, hso,
    hrange, nackBits, bitsOf_bool, bitsOf_bool, bitsOf_bool]
  simp

theorem nacksBytes_bits (snLen : SnLen) (nacks : List RlcNackInfo) :
    bytesBits (nacksBytes snLen nacks) = nacksBits snLen nacks := by
  induction nacks with
  | nil => rfl
  | cons nack nacks ih =>
      rw [nacksBytes, nacksBits, bytesBits_append, nackBytes_bits, ih]

/-- The first three octets. -/
def ackOctets (snLen : SnLen) (ackSn : ℕ) (e1 : Bool) : List UInt8 :=
  match snLen with
  | .bits12 => [.ofNat ((ackSn &&& 0xF00) >>> 8), .ofNat ackSn, flag e1 SnLen.bits12.e1Ack]
  | .bits18 => [.ofNat ((ackSn &&& 0x3C000) >>> 14), .ofNat ((ackSn &&& 0x3FC0) >>> 6),
      flag e1 SnLen.bits18.e1Ack ||| .ofNat ((ackSn &&& 0x3F) <<< 2)]

theorem starts_putAckSn {snLen : SnLen} {e1 : Bool} {cntrlPdu : CntrlPdu} {rest : List UInt8}
    (h : cntrlPdu.Starts (front snLen e1 ++ rest)) (ackSn : ℕ) :
    ∃ cntrlPdu', putAckSn snLen ackSn cntrlPdu = some cntrlPdu' ∧
      cntrlPdu'.Starts (ackOctets snLen ackSn e1 ++ rest) := by
  cases snLen with
  | bits12 =>
      obtain ⟨b0, e0, h0⟩ := @starts_putOr _ [] _ _ _ h rfl (.ofNat ((ackSn &&& 0xF00) >>> 8))
      rw [UInt8.zero_or] at h0
      obtain ⟨b1, e1, h1⟩ := @starts_put_mid _ [_] _ _ _ h0 rfl (.ofNat ackSn)
      have e0 : cntrlPdu.putOr 0 _ = some b0 := e0
      refine ⟨b1, ?_, h1⟩
      simp only [putAckSn, Option.bind_eq_bind, e0, Option.bind_some]
      exact e1
  | bits18 =>
      obtain ⟨b0, e0, h0⟩ := @starts_putOr _ [] _ _ _ h rfl (.ofNat ((ackSn &&& 0x3C000) >>> 14))
      rw [UInt8.zero_or] at h0
      obtain ⟨b1, e1, h1⟩ := @starts_put_mid _ [_] _ _ _ h0 rfl (.ofNat ((ackSn &&& 0x3FC0) >>> 6))
      obtain ⟨b2, e2, h2⟩ := @starts_putOr _ [_, _] _ _ _ h1 rfl (.ofNat ((ackSn &&& 0x3F) <<< 2))
      have e0 : cntrlPdu.putOr 0 _ = some b0 := e0
      have e1 : b0.put 1 _ = some b1 := e1
      refine ⟨b2, ?_, h2⟩
      simp only [putAckSn, Option.bind_eq_bind, e0, e1, Option.bind_some]
      exact e2

theorem ackOctets_bits (snLen : SnLen) (ackSn : ℕ) (e1 : Bool) :
    bytesBits (ackOctets snLen ackSn e1) = bitsOf 4 0 ++ ackBits snLen ackSn e1 := by
  cases snLen with
  | bits12 =>
      have hzero : bitsOf 4 ((ackSn &&& 0xF00) >>> (8 + 4)) = bitsOf 4 0 :=
        bitsOf_and_zero (by decide) ackSn
      have hhigh : bitsOf 4 ((ackSn &&& 0xF00) >>> 8) = bitsOf 4 (ackSn >>> 8) :=
        bitsOf_and (by decide) ackSn
      have hflag : byteBits (flag e1 SnLen.bits12.e1Ack) = bitsOf 1 e1.toNat ++ bitsOf 7 0 := by
        cases e1 <;> decide
      have hfirst : bitsOf 8 ((ackSn &&& 0xF00) >>> 8) = bitsOf 4 0 ++ bitsOf 4 (ackSn >>> 8) := by
        rw [show 8 = 4 + 4 from rfl, bitsOf_add, ← Nat.shiftRight_add, hzero, hhigh]
      rw [ackOctets, bytesBits_cons, bytesBits_cons, bytesBits_cons, bytesBits_nil,
        List.append_nil, byteBits_ofNat, byteBits_ofNat, hfirst, hflag, ackBits,
        show SnLen.bits .bits12 = 4 + 8 from rfl, bitsOf_add]
      simp only [List.append_assoc]
      rfl
  | bits18 =>
      have hzero : bitsOf 4 ((ackSn &&& 0x3C000) >>> (14 + 4)) = bitsOf 4 0 :=
        bitsOf_and_zero (by decide) ackSn
      have hhigh : bitsOf 4 ((ackSn &&& 0x3C000) >>> 14) = bitsOf 4 (ackSn >>> 14) :=
        bitsOf_and (by decide) ackSn
      have hmid : bitsOf 8 ((ackSn &&& 0x3FC0) >>> 6) = bitsOf 8 (ackSn >>> 6) :=
        bitsOf_and (by decide) ackSn
      have hlow : bitsOf 6 ((ackSn &&& 0x3F) >>> 0) = bitsOf 6 (ackSn >>> 0) :=
        bitsOf_and (by decide) ackSn
      have hflag : (flag e1 SnLen.bits18.e1Ack).toNat < 2 ^ 2 ∧
          bitsOf 2 (flag e1 SnLen.bits18.e1Ack).toNat = bitsOf 1 e1.toNat ++ bitsOf 1 0 := by
        cases e1 <;> decide
      have hfirst : bitsOf 8 ((ackSn &&& 0x3C000) >>> 14) =
          bitsOf 4 0 ++ bitsOf 4 (ackSn >>> 14) := by
        rw [show 8 = 4 + 4 from rfl, bitsOf_add, ← Nat.shiftRight_add, hzero, hhigh]
      have hlast := byteBits_or (by decide) (ackSn &&& 0x3F) hflag.1
      have hlow' : bitsOf 6 (ackSn &&& 0x3F) = bitsOf 6 ackSn := hlow
      rw [UInt8.or_comm, show 8 - 2 = 6 from rfl, hflag.2, hlow'] at hlast
      rw [ackOctets, bytesBits_cons, bytesBits_cons, bytesBits_cons, bytesBits_nil,
        List.append_nil, byteBits_ofNat, byteBits_ofNat, hfirst, hmid, hlast, ackBits,
        show SnLen.bits .bits18 = 4 + (8 + 6) from rfl, bitsOf_add, bitsOf_add 8 6]
      simp only [List.append_assoc]
      rfl

/-! ## The round trip -/

theorem starts_clear : CntrlPdu.Starts (Vector.replicate RLC_MAX_CNTRL_FIELDS 0) [0, 0, 0] := by
  rw [CntrlPdu.Starts, Vector.toList_replicate]
  refine ⟨List.replicate (RLC_MAX_NACK_CNT * 8) 0, ?_⟩
  have h : List.replicate 3 (0 : UInt8) ++ List.replicate (RLC_MAX_NACK_CNT * 8) 0 =
      List.replicate (3 + RLC_MAX_NACK_CNT * 8) 0 := List.replicate_append_replicate
  rw [Nat.add_comm] at h
  exact h

theorem starts_putE1 {snLen : SnLen} {cntrlPdu : CntrlPdu} (h : cntrlPdu.Starts [0, 0, 0])
    (nackCount : ℕ) :
    ∃ cntrlPdu', putE1 snLen nackCount cntrlPdu = some cntrlPdu' ∧
      cntrlPdu'.Starts (front snLen (decide (nackCount ≠ 0))) := by
  by_cases h0 : nackCount = 0
  · subst h0
    exact ⟨cntrlPdu, by cases snLen <;> rfl, h⟩
  · obtain ⟨b, hb, hb'⟩ := @starts_put_mid _ [0, 0] _ _ _ h rfl snLen.e1Ack
    rw [decide_eq_true h0]
    refine ⟨b, ?_, hb'⟩
    cases snLen <;> exact (if_pos h0).trans hb

theorem ackOctets_length (snLen : SnLen) (ackSn : ℕ) (e1 : Bool) :
    (ackOctets snLen ackSn e1).length = RLC_CNTRL_PDU_FIXED_HDRSZ := by cases snLen <;> rfl

/-- The octets of the STATUS PDU: the longest prefix of the NACKs that the grant has room for,
and as ACK_SN the first SN that was left out. -/
theorem createStatusPdu_spec {snLen : SnLen} {pStaPdu : RlcUdxDlStaPdu} {pduSz : ℤ}
    (hc : pStaPdu.nackCount ≤ RLC_MAX_NACK_CNT) (hp : (RLC_CNTRL_PDU_FIXED_HDRSZ : ℤ) ≤ pduSz) :
    ∃ mBuf k, rlcAmmCreateStatusPdu snLen pStaPdu pduSz = some (mBuf, pduSz - mBuf.length) ∧
      Reach snLen pStaPdu.nacks pduSz k ∧
      mBuf.length = statusOctets snLen (pStaPdu.nacks.take k) ∧
      mBuf = ackOctets snLen ((pStaPdu.nacks[k]?.map (·.sn)).getD pStaPdu.ackSn) (decide (k ≠ 0)) ++
        nacksBytes snLen (pStaPdu.nacks.take k) := by
  have hlen := RlcUdxDlStaPdu.nacks_length hc
  obtain ⟨b0, e0, h0⟩ := @starts_put_mid _ [] _ _ _ starts_clear rfl 0x00
  obtain ⟨b1, e1, h1⟩ := @starts_put_mid _ [0, 0] _ _ _ h0 rfl 0x00
  obtain ⟨b2, e2, h2⟩ := @starts_putE1 snLen _ h1 pStaPdu.nackCount
  have hw : (⟨b2, 3, 3, 0, pStaPdu.ackSn⟩ : Encoder).Wrote snLen (!pStaPdu.nacks.isEmpty)
      (pStaPdu.nacks.take 0) := by
    refine ⟨?_, rfl, rfl, fun _ => rfl, fun init last h => absurd h (by simp)⟩
    rw [not_isEmpty, hlen]
    simpa [nacksBytes] using h2
  obtain ⟨k, c, e3, hk, h3, hidx, hsn⟩ :=
    encodeNacks_spec hc (Nat.zero_add _) (by simpa [statusOctets] using hp) hw
  obtain ⟨b4, e4, h4⟩ := starts_putAckSn h3 c.ackSn
  have hlength : (ackOctets snLen c.ackSn (decide (k ≠ 0)) ++
      nacksBytes snLen (pStaPdu.nacks.take k)).length = c.encIdx := by
    rw [List.length_append, nacksBytes_length, ackOctets_length, hidx]
    rfl
  have htake : b4.toList.take c.encIdx =
      ackOctets snLen c.ackSn (decide (k ≠ 0)) ++ nacksBytes snLen (pStaPdu.nacks.take k) := by
    rw [← hlength]
    exact (List.prefix_iff_eq_take.1 h4).symm
  have hlength' : (b4.toList.take c.encIdx).length = c.encIdx := by rw [htake, hlength]
  refine ⟨b4.toList.take c.encIdx, k, ?_, hk, hlength'.trans hidx, hsn ▸ htake⟩
  have e0 : CntrlPdu.put 0 0x00 _ = some b0 := e0
  have e1 : b0.put 2 0x00 = some b1 := e1
  rw [hlength']
  simp only [rlcAmmCreateStatusPdu, Option.bind_eq_bind, e0, e1, e2, e3, e4, Option.bind_some]
  rfl

/-- **A STATUS PDU is received as it was meant.** The receiver gets the longest prefix of the
NACKs that the grant has room for, and as ACK_SN the first SN that was left out. -/
theorem status_round_trip {snLen : SnLen} {pStaPdu : RlcUdxDlStaPdu} {pduSz : ℤ}
    (hc : pStaPdu.nackCount < RLC_MAX_NACK_CNT) (hack : pStaPdu.ackSn < snLen.modulus)
    (hn : ∀ nack ∈ pStaPdu.nacks, nack.Fits snLen)
    (hp : (RLC_CNTRL_PDU_FIXED_HDRSZ : ℤ) ≤ pduSz) :
    ∃ mBuf k, rlcAmmCreateStatusPdu snLen pStaPdu pduSz = some (mBuf, pduSz - mBuf.length) ∧
      Reach snLen pStaPdu.nacks pduSz k ∧
      mBuf.length = statusOctets snLen (pStaPdu.nacks.take k) ∧
      rcvCntrlPdu snLen mBuf = some {
        ackSn := (pStaPdu.nacks[k]?.map (·.sn)).getD pStaPdu.ackSn
        nackInfo := (pStaPdu.nacks.take k).map RlcNackInfo.received } := by
  have hlen := RlcUdxDlStaPdu.nacks_length hc.le
  obtain ⟨mBuf, k, he, hk, hlength, hbytes⟩ := @createStatusPdu_spec snLen _ _ hc.le hp
  refine ⟨mBuf, k, he, hk, hlength, ?_⟩
  have hkept : (pStaPdu.nacks.take k).length = k := by
    rw [List.length_take, min_eq_left hk.le_length]
  have hack' : (pStaPdu.nacks[k]?.map (·.sn)).getD pStaPdu.ackSn < snLen.modulus := by
    cases hread : pStaPdu.nacks[k]? with
    | none => exact hack
    | some nack => exact (hn nack (List.mem_of_getElem? hread)).sn
  refine rcvCntrlPdu_spec ?_ hack' (fun nack h => hn nack (List.mem_of_mem_take h))
    (by rw [hkept]; exact hk.le_length.trans_lt (hlen ▸ hc))
  rw [hbytes, bytesBits_append, ackOctets_bits, nacksBytes_bits, not_isEmpty, hkept,
    List.append_assoc]

/-- Two NACKs of which the grant has room for one. -/
def twoNacks : RlcUdxDlStaPdu where
  ackSn := 9
  nackInfo := Vector.replicate _ {
    nackRange := 2
    isSegment := true
    sn := 3
    soStart := 10
    soEnd := 19 }
  nackCount := 2

theorem twoNacks_fit : ∀ nack ∈ twoNacks.nacks, nack.Fits .bits12 := by
  intro nack hm
  have hm := List.mem_of_mem_take hm
  rw [twoNacks, Vector.toList_replicate] at hm
  rw [List.eq_of_mem_replicate hm]
  exact ⟨by decide, by decide, by decide, by decide⟩

theorem status_round_trip_twoNacks :
    ∃ mBuf k, rlcAmmCreateStatusPdu .bits12 twoNacks 12 = some (mBuf, (12 : ℤ) - mBuf.length) ∧
      Reach .bits12 twoNacks.nacks 12 k ∧
      mBuf.length = statusOctets .bits12 (twoNacks.nacks.take k) ∧
      rcvCntrlPdu .bits12 mBuf = some {
        ackSn := (twoNacks.nacks[k]?.map (·.sn)).getD twoNacks.ackSn
        nackInfo := (twoNacks.nacks.take k).map RlcNackInfo.received } :=
  status_round_trip (by decide) (by decide) twoNacks_fit (by decide)

end OaiCu.OduRlc
