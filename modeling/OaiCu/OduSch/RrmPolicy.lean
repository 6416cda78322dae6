import OaiCu.Lib.While
import OaiCu.OduSch.UlGrant
import OaiCu.OduSch.DlGrant
import OaiCu.OduSch.EstimateSizes

/-!
# The loop of `prbAllocUsingRRMPolicy` (`sch_common.c`)

The loop for an MCS and a number of symbols, with the sizes that `schCalcTbSizeFromNPrb` computes
and all numbers in their widths. What is charged is written down for each channel that is served.
-/

namespace OaiCu.OduSch

open While

/-- What a channel gets in addition: `TX_PAYLOAD_HDR_LEN`, `UL_GRANT_SIZE` or nothing. -/
inductive LcExtra
  | header
  | grant
  | nothing
deriving DecidableEq, Repr

namespace LcExtra

/-- What is estimated for a request. -/
def arg (extra : LcExtra) (reqBO : ℕ) : ℕ :=
  match extra with
  | .header => (reqBO + TX_PAYLOAD_HDR_LEN) % 2 ^ 32
  | .grant => (reqBO + UL_GRANT_SIZE) % 2 ^ 32
  | .nothing => reqBO

/-- The channel after an estimate. -/
def after (extra : LcExtra) (n : LcInfo) (est estPrb : ℕ) : LcInfo :=
  let reqBO := if extra = .grant then (n.reqBO + UL_GRANT_SIZE) % 2 ^ 32 else n.reqBO
  let allocBO := if extra = .header then (est + 2 ^ 32 - TX_PAYLOAD_HDR_LEN) % 2 ^ 32 else est
  ⟨n.lcId, (reqBO + 2 ^ 32 - allocBO) % 2 ^ 32, allocBO, estPrb % 2 ^ 8⟩

end LcExtra

/-- A channel that is served: what it was, the PRBs that were free, and the estimate. -/
structure LcCharge where
  before : LcInfo
  extra : LcExtra
  freePrb : ℕ
  est : ℕ
  estPrb : ℕ
deriving DecidableEq, Repr

namespace LcCharge

def lcId (c : LcCharge) : ℕ := c.before.lcId

def after (c : LcCharge) : LcInfo := c.extra.after c.before c.est c.estPrb

@[simp] theorem after_lcId (c : LcCharge) : c.after.lcId = c.lcId := rfl

theorem after_allocPRB (c : LcCharge) : c.after.allocPRB = c.estPrb % 2 ^ 8 := rfl

end LcCharge

/-- What the loop is called with besides the list. -/
structure RrmCfg where
  isDedicatedPRB : Bool
  mcsIdx : ℕ
  numSymbols : ℕ

/-- The variables of the loop. A flag is `none` if its pointer is `NULLP`. `defined` is `false` after
an estimate that is not defined. -/
structure RrmLoop where
  lcLL : List LcInfo
  sharedPRB : ℕ
  remReservedPRB : ℕ
  isTxPayloadLenAdded : Option Bool
  srRcvd : Option Bool
  defined : Bool
  charges : List LcCharge
deriving DecidableEq

namespace RrmLoop

/-- The variables before the first pass. -/
def start (cfg : RrmCfg) (lcLL : List LcInfo) (sharedPRB reservedPRB : ℕ)
    (isTxPayloadLenAdded srRcvd : Option Bool) : RrmLoop where
  lcLL := lcLL
  sharedPRB := sharedPRB
  remReservedPRB := if cfg.isDedicatedPRB then reservedPRB else 0
  isTxPayloadLenAdded := isTxPayloadLenAdded
  srRcvd := srRcvd
  defined := true
  charges := []

/-- What the next channel gets in addition. -/
def extra (s : RrmLoop) : LcExtra :=
  if s.isTxPayloadLenAdded = some false then .header
  else if s.srRcvd = some true then .grant else .nothing

/-- The PRBs are exhausted. -/
def exhausted (cfg : RrmCfg) (s : RrmLoop) : Bool :=
  if cfg.isDedicatedPRB then s.remReservedPRB = 0 && s.sharedPRB = 0 else s.sharedPRB = 0

/-- The estimate for a channel. -/
def charge (cfg : RrmCfg) (s : RrmLoop) (n : LcInfo) : Option LcCharge := do
  let maxPRB := (s.remReservedPRB + s.sharedPRB) % 2 ^ 16
  let (est, estPrb) ← estimateTbSize cfg.mcsIdx cfg.numSymbols (s.extra.arg n.reqBO) maxPRB
  return ⟨n, s.extra, s.remReservedPRB + s.sharedPRB, est, estPrb⟩

/-- The reserved PRBs are used first. -/
def usePrb (cfg : RrmCfg) (estPrb : ℕ) (s : RrmLoop) : RrmLoop :=
  if cfg.isDedicatedPRB && estPrb ≤ s.remReservedPRB then
    { s with remReservedPRB := s.remReservedPRB - estPrb }
  else { s with
    sharedPRB := if s.sharedPRB ≤ estPrb - s.remReservedPRB then 0
      else s.sharedPRB - (estPrb - s.remReservedPRB)
    remReservedPRB := 0 }

/-- The channel is put at the tail. -/
def serve (cfg : RrmCfg) (c : LcCharge) (rest : List LcInfo) (s : RrmLoop) : RrmLoop :=
  { s.usePrb cfg c.estPrb with
    lcLL := rest ++ [c.after]
    isTxPayloadLenAdded := if c.extra = .header then some true else s.isTxPayloadLenAdded
    srRcvd := if c.extra = .grant then some false else s.srRcvd
    charges := s.charges ++ [c] }

/-- One pass of the loop. -/
def pass (cfg : RrmCfg) (s : RrmLoop) : Option RrmLoop :=
  if !s.defined then none
  else
    match s.lcLL with
    | [] => none
    | n :: rest =>
      if n.reqBO = 0 ∧ n.allocBO = 0 then some { s with lcLL := rest }
      else if n.allocBO ≠ 0 then none
      else if s.exhausted cfg then none
      else
        match s.charge cfg n with
        | none => some { s with defined := false }
        | some c => some (s.serve cfg c rest)

/-- The head of the list is about to be served. -/
structure Serves (cfg : RrmCfg) (s : RrmLoop) (n : LcInfo) (rest : List LcInfo) : Prop where
  defined : s.defined = true
  lcLL : s.lcLL = n :: rest
  reqBO : n.reqBO ≠ 0
  allocBO : n.allocBO = 0
  free : s.exhausted cfg = false

section

variable {cfg : RrmCfg} {s : RrmLoop} {n : LcInfo} {rest : List LcInfo} {c : LcCharge}

/-- A pass leaves the loop, drops the head, or serves it. -/
theorem pass_cases (cfg : RrmCfg) (s : RrmLoop) :
    (s.pass cfg = none ∧ ∀ n rest, ¬ s.Serves cfg n rest) ∨
    (∃ n rest, s.lcLL = n :: rest ∧ n.reqBO = 0 ∧ n.allocBO = 0 ∧
      s.pass cfg = some { s with lcLL := rest } ∧ ∀ n rest, ¬ s.Serves cfg n rest) ∨
    (∃ n rest, s.Serves cfg n rest ∧ s.charge cfg n = none ∧
      s.pass cfg = some { s with defined := false }) ∨
    (∃ n rest c, s.Serves cfg n rest ∧ s.charge cfg n = some c ∧
      s.pass cfg = some (s.serve cfg c rest)) := by
  unfold pass
  split
  · rename_i hdef
    refine .inl ⟨rfl, fun n rest h => ?_⟩
    rw [h.defined] at hdef
    cases hdef
  · rename_i hdef
    rw [Bool.not_eq_true', Bool.not_eq_false] at hdef
    split
    · rename_i hnil
      exact .inl ⟨rfl, fun n rest h => absurd (hnil.symm.trans h.lcLL) nofun⟩
    · rename_i n rest hcons
      have hhead : ∀ {n' rest'}, s.Serves cfg n' rest' → n' = n := fun h =>
        (List.cons.inj (h.lcLL.symm.trans hcons)).1
      split
      · rename_i hzero
        refine .inr (.inl ⟨n, rest, hcons, hzero.1, hzero.2, rfl, fun n' rest' h => ?_⟩)
        exact h.reqBO (hhead h ▸ hzero.1)
      · rename_i hnot
        split
        · rename_i halloc
          exact .inl ⟨rfl, fun n' rest' h => halloc (hhead h ▸ h.allocBO)⟩
        · rename_i halloc
          rw [not_not] at halloc
          split
          · rename_i hex
            refine .inl ⟨rfl, fun n' rest' h => ?_⟩
            rw [h.free] at hex
            cases hex
          · rename_i hfree
            have hserves : s.Serves cfg n rest :=
              ⟨hdef, hcons, fun hz => hnot ⟨hz, halloc⟩, halloc, Bool.eq_false_iff.mpr hfree⟩
            split
            · rename_i hcharge
              exact .inr (.inr (.inl ⟨n, rest, hserves, hcharge, rfl⟩))
            · rename_i c hcharge
              exact .inr (.inr (.inr ⟨n, rest, c, hserves, hcharge, rfl⟩))

theorem Serves.unique {n' : LcInfo} {rest' : List LcInfo} (h : s.Serves cfg n rest)
    (h' : s.Serves cfg n' rest') : n = n' ∧ rest = rest' :=
  List.cons.inj (h.lcLL.symm.trans h'.lcLL)

theorem Serves.pass (h : s.Serves cfg n rest) (hc : s.charge cfg n = some c) :
    s.pass cfg = some (s.serve cfg c rest) := by
  rcases pass_cases cfg s with ⟨-, hno⟩ | ⟨_, _, -, -, -, -, hno⟩ | ⟨n', rest', h', hnone, -⟩ |
    ⟨n', rest', c', h', hc', heq⟩
  · exact absurd h (hno n rest)
  · exact absurd h (hno n rest)
  · obtain ⟨rfl, -⟩ := h.unique h'
    rw [hc] at hnone
    cases hnone
  · obtain ⟨rfl, rfl⟩ := h.unique h'
    obtain rfl := Option.some.inj (hc.symm.trans hc')
    exact heq

/-- What a charge is made of. -/
theorem charge_spec (h : s.charge cfg n = some c) :
    c.before = n ∧ c.extra = s.extra ∧ c.freePrb = s.remReservedPRB + s.sharedPRB ∧
      estimateTbSize cfg.mcsIdx cfg.numSymbols (s.extra.arg n.reqBO)
        ((s.remReservedPRB + s.sharedPRB) % 2 ^ 16) = some (c.est, c.estPrb) := by
  obtain ⟨⟨est, estPrb⟩, hest, heq⟩ := Option.bind_eq_some_iff.mp h
  obtain rfl := Option.some.inj heq
  exact ⟨rfl, rfl, rfl, hest⟩

/-- A charge is never for less than two PRBs, and at most for the free ones if there are two. -/
theorem charge_bounds (h : s.charge cfg n = some c) :
    c.est ≤ c.extra.arg c.before.reqBO ∧ 2 ≤ c.estPrb ∧
      (c.estPrb ≤ c.freePrb ↔ 2 ≤ s.remReservedPRB + s.sharedPRB) := by
  obtain ⟨rfl, hextra, hfree, hest⟩ := charge_spec h
  obtain ⟨hle, htwo, hmax⟩ := estimateTbSize_spec hest
  rw [hextra, hfree]
  have hmod := Nat.mod_le (s.remReservedPRB + s.sharedPRB) (2 ^ 16)
  exact ⟨hle, htwo, by omega⟩

/-- The PRBs are taken from the reserved ones and then from the shared ones. -/
theorem usePrb_spec (hrem : cfg.isDedicatedPRB = true ∨ s.remReservedPRB = 0) (estPrb : ℕ) :
    (s.usePrb cfg estPrb).remReservedPRB = s.remReservedPRB - estPrb ∧
      (s.usePrb cfg estPrb).sharedPRB = s.sharedPRB - (estPrb - s.remReservedPRB) := by
  unfold usePrb
  split
  · rename_i hin
    rw [Bool.and_eq_true, decide_eq_true_iff] at hin
    dsimp only
    omega
  · rename_i hout
    rw [Bool.and_eq_true, decide_eq_true_iff] at hout
    dsimp only
    constructor
    · rcases hrem with hded | hzero
      · have hlt : ¬ estPrb ≤ s.remReservedPRB := fun h => hout ⟨hded, h⟩
        omega
      · omega
    · split <;> omega

end

/-! ## The loop ends -/

/-- A dedicated list may have reserved PRBs. -/
def RemOk (cfg : RrmCfg) (s : RrmLoop) : Prop := cfg.isDedicatedPRB = true ∨ s.remReservedPRB = 0

section

variable {cfg : RrmCfg} {s s' t : RrmLoop}

theorem RemOk.pass (h : s.RemOk cfg) (hpass : s.pass cfg = some s') : s'.RemOk cfg := by
  rcases pass_cases cfg s with ⟨hnone, -⟩ | ⟨n, rest, -, -, -, heq, -⟩ | ⟨n, rest, -, -, heq⟩ |
    ⟨n, rest, c, -, -, heq⟩
  · rw [hnone] at hpass
    cases hpass
  · rw [heq] at hpass
    cases hpass
    exact h
  · rw [heq] at hpass
    cases hpass
    exact h
  · rw [heq] at hpass
    cases hpass
    refine h.imp_right fun hzero => ?_
    show (s.usePrb cfg c.estPrb).remReservedPRB = 0
    rw [(usePrb_spec h c.estPrb).1]
    omega

/-- What every pass takes something off. -/
def size (s : RrmLoop) : ℕ :=
  s.lcLL.length + (s.sharedPRB + s.remReservedPRB) + if s.defined then 1 else 0

theorem size_pass (h : s.RemOk cfg) (hpass : s.pass cfg = some s') : s'.size < s.size := by
  rcases pass_cases cfg s with ⟨hnone, -⟩ | ⟨n, rest, hcons, -, -, heq, -⟩ |
    ⟨n, rest, hserves, -, heq⟩ | ⟨n, rest, c, hserves, hcharge, heq⟩
  · rw [hnone] at hpass
    cases hpass
  · rw [heq] at hpass
    cases hpass
    unfold size
    dsimp only
    rw [hcons, List.length_cons]
    omega
  · rw [heq] at hpass
    cases hpass
    unfold size
    rw [hserves.defined]
    dsimp only
    rw [if_pos rfl, if_neg Bool.false_ne_true]
    omega
  · rw [heq] at hpass
    cases hpass
    obtain ⟨-, htwo, -⟩ := charge_bounds hcharge
    obtain ⟨h1, h2⟩ := usePrb_spec h c.estPrb
    have hfree : 0 < s.sharedPRB + s.remReservedPRB := by
      have hex := hserves.free
      unfold exhausted at hex
      split at hex
      · simp only [Bool.and_eq_false_iff, decide_eq_false_iff_not] at hex
        omega
      · rw [decide_eq_false_iff_not] at hex
        omega
    unfold size serve
    dsimp only
    rw [h1, h2, hserves.lcLL, List.length_append, List.length_singleton, List.length_cons]
    have hdef : (s.usePrb cfg c.estPrb).defined = s.defined := by
      unfold usePrb
      split <;> rfl
    rw [hdef]
    omega

/-- The loop ends. -/
theorem ends (h : s.RemOk cfg) : ∃ t, Ends (pass cfg) s t := by
  induction hsize : s.size using Nat.strong_induction_on generalizing s with
  | _ m ih =>
    cases hpass : s.pass cfg with
    | none => exact ⟨s, .left hpass⟩
    | some s' =>
      obtain ⟨t, ht⟩ := ih s'.size (hsize ▸ size_pass h hpass) (h.pass hpass) rfl
      exact ⟨t, .again hpass ht⟩

end

/-- An estimate that is not defined ends the loop. -/
theorem ends_of_charge_none {cfg : RrmCfg} {s : RrmLoop} {n : LcInfo} {rest : List LcInfo}
    (h : s.Serves cfg n rest) (hc : s.charge cfg n = none) :
    Ends (pass cfg) s { s with defined := false } := by
  obtain ⟨-, hno⟩ | ⟨_, _, -, -, -, -, hno⟩ | ⟨_, _, -, -, heq⟩ | ⟨n', rest', c, h', hc', -⟩ :=
    pass_cases cfg s
  · exact absurd h (hno n rest)
  · exact absurd h (hno n rest)
  · exact .again heq (.left rfl)
  · obtain ⟨rfl, -⟩ := h.unique h'
    rw [hc] at hc'
    cases hc'

end RrmLoop

/-! ## The loop for one direction -/

/-- What a channel gets in a direction. -/
def lcTake (dl : Bool) (tbs : TbCfg) : Bool → ℕ → ℕ → Option LcTake :=
  if dl then dlTake tbs else ulTake tbs

namespace LcLoop

/-- The variables for a direction: only one flag has a pointer. -/
def toRrm (dl : Bool) (charges : List LcCharge) (s : LcLoop) : RrmLoop where
  lcLL := s.lcLL
  sharedPRB := s.sharedPRB
  remReservedPRB := s.remReservedPRB
  isTxPayloadLenAdded := if dl then some (!s.first) else none
  srRcvd := if dl then none else some s.first
  defined := true
  charges := charges

/-- The free PRBs are a number of 16 bits, and the requests are numbers of 32 bits, also with what
may be added. -/
structure InWidth (dl : Bool) (s : LcLoop) : Prop where
  prb : s.remReservedPRB + s.sharedPRB < 2 ^ 16
  req : ∀ n ∈ s.lcLL, n.reqBO + (if s.first && !dl then UL_GRANT_SIZE else 0) < 2 ^ 32

section

variable {dl isDedicatedPRB : Bool} {tbs : TbCfg} {s : LcLoop} {n : LcInfo} {rest : List LcInfo}
  {charges : List LcCharge} {c : LcCharge}

/-- What the next channel gets in addition. -/
theorem extra_toRrm : (s.toRrm dl charges).extra =
    if s.first then if dl then .header else .grant else .nothing := by
  cases dl <;> cases hfirst : s.first <;> simp [RrmLoop.extra, toRrm, hfirst]

/-- What a channel gets is an estimate for its request and what it gets in addition. -/
theorem lcTake_eq (charges : List LcCharge) (h : s.InWidth dl) (hn : n ∈ s.lcLL) (maxPRB : ℕ) :
    lcTake dl tbs s.first n.reqBO maxPRB =
      (estimateTbSize tbs.mcsIdx tbs.numSymbols ((s.toRrm dl charges).extra.arg n.reqBO)
        maxPRB).map fun p =>
          ⟨((s.toRrm dl charges).extra.after n p.1 p.2).reqBO,
            ((s.toRrm dl charges).extra.after n p.1 p.2).allocBO, p.2⟩ := by
  have hreq := h.req n hn
  rw [extra_toRrm]
  cases dl with
  | true =>
      cases s.first <;> simp [lcTake, dlTake, LcExtra.arg, LcExtra.after, Option.map_eq_bind]
  | false =>
      -- the request is not cut, so that the subtraction is one of numbers
      have harg : (if s.first then n.reqBO + UL_GRANT_SIZE else n.reqBO) =
          (if s.first then if false then LcExtra.header else .grant else .nothing).arg n.reqBO := by
        cases hfirst : s.first with
        | true =>
            rw [hfirst] at hreq
            exact (Nat.mod_eq_of_lt hreq).symm
        | false => rfl
      rw [lcTake, if_neg Bool.false_ne_true, ulTake, harg]
      cases hest : estimateTbSize tbs.mcsIdx tbs.numSymbols _ maxPRB with
      | none => rfl
      | some p =>
          have hle := (estimateTbSize_spec hest).1
          cases hfirst : s.first with
          | true =>
              simp only [hfirst, Bool.not_false, Bool.and_true, if_true, Bool.false_eq_true,
                if_false, LcExtra.arg] at hreq hle
              simp [LcExtra.arg, LcExtra.after]
              omega
          | false =>
              simp only [hfirst, Bool.false_and, Bool.false_eq_true, if_false, LcExtra.arg] at hreq hle
              simp [LcExtra.arg, LcExtra.after]
              omega

/-- The charge for the head is what the head gets. -/
theorem charge_toRrm (tbs : TbCfg) (isDedicatedPRB : Bool) (charges : List LcCharge)
    (h : s.InWidth dl) (hn : n ∈ s.lcLL) :
    ((s.toRrm dl charges).charge ⟨isDedicatedPRB, tbs.mcsIdx, tbs.numSymbols⟩ n = none ∧
      lcTake dl tbs s.first n.reqBO (s.remReservedPRB + s.sharedPRB) = none) ∨
    ∃ c t, (s.toRrm dl charges).charge ⟨isDedicatedPRB, tbs.mcsIdx, tbs.numSymbols⟩ n = some c ∧
      lcTake dl tbs s.first n.reqBO (s.remReservedPRB + s.sharedPRB) = some t ∧
      c.after = ⟨n.lcId, t.reqBO, t.allocBO, t.estPrb % 2 ^ 8⟩ ∧ c.estPrb = t.estPrb ∧
      c.extra = (s.toRrm dl charges).extra ∧ t.reqBO < 2 ^ 32 := by
  have hprb : ((s.toRrm dl charges).remReservedPRB + (s.toRrm dl charges).sharedPRB) % 2 ^ 16 =
      s.remReservedPRB + s.sharedPRB := Nat.mod_eq_of_lt h.prb
  rw [lcTake_eq charges h hn, RrmLoop.charge, hprb]
  cases hest : estimateTbSize tbs.mcsIdx tbs.numSymbols ((s.toRrm dl charges).extra.arg n.reqBO)
    (s.remReservedPRB + s.sharedPRB) with
  | none => exact .inl ⟨rfl, rfl⟩
  | some p => exact .inr ⟨_, _, rfl, rfl, rfl, rfl, rfl, Nat.mod_lt _ (by omega)⟩

/-- The head is served, in both loops. -/
theorem serve_toRrm {t : LcTake} (hid : c.after = ⟨n.lcId, t.reqBO, t.allocBO, t.estPrb % 2 ^ 8⟩)
    (hprb : c.estPrb = t.estPrb) (hextra : c.extra = (s.toRrm dl charges).extra) :
    (s.toRrm dl charges).serve ⟨isDedicatedPRB, tbs.mcsIdx, tbs.numSymbols⟩ c rest =
      (s.serve isDedicatedPRB n rest t).toRrm dl (charges ++ [c]) := by
  rw [extra_toRrm] at hextra
  unfold RrmLoop.serve RrmLoop.usePrb serve usePrb toRrm
  rw [hid, hprb, hextra]
  dsimp only
  cases dl <;> cases hfirst : s.first <;> split <;> simp

/-- A channel that is served leaves the numbers in their widths. -/
theorem InWidth.serve (h : s.InWidth dl) (hcons : s.lcLL = n :: rest) {t : LcTake}
    (ht : t.reqBO < 2 ^ 32) : (s.serve isDedicatedPRB n rest t).InWidth dl where
  prb := (freePrb_usePrb_le isDedicatedPRB t.estPrb s).trans_lt h.prb
  req := fun m hm => by
    rcases List.mem_append.mp hm with hm | hm
    · have hm' := h.req m (hcons ▸ List.mem_cons_of_mem _ hm)
      exact (Nat.le_add_right _ _).trans_lt hm'
    · rw [List.mem_singleton.mp hm]
      exact ht

/-- **The rounds of a loop for one direction are the passes of `prbAllocUsingRRMPolicy`.** -/
theorem run_toRrm : ∀ {fuel : ℕ} {s : LcLoop} {charges : List LcCharge} {t : RrmLoop},
    s.lcLL.length + (s.sharedPRB + s.remReservedPRB) < fuel →
    (s.toRrm dl charges).RemOk ⟨isDedicatedPRB, tbs.mcsIdx, tbs.numSymbols⟩ → s.InWidth dl →
    Ends (RrmLoop.pass ⟨isDedicatedPRB, tbs.mcsIdx, tbs.numSymbols⟩) (s.toRrm dl charges) t →
    (∃ s' charges', run (lcTake dl tbs) isDedicatedPRB fuel s = some s' ∧ t = s'.toRrm dl charges') ∨
      (run (lcTake dl tbs) isDedicatedPRB fuel s = none ∧ t.defined = false)
  | fuel + 1, s, charges, t, hfuel, hrem, hwidth, hends => by
      have hless : ∀ {s' : LcLoop} {charges' : List LcCharge},
          (s.toRrm dl charges).pass ⟨isDedicatedPRB, tbs.mcsIdx, tbs.numSymbols⟩ =
            some (s'.toRrm dl charges') →
          s'.lcLL.length + (s'.sharedPRB + s'.remReservedPRB) < fuel := fun hpass => by
        have hsize := RrmLoop.size_pass hrem hpass
        simp only [RrmLoop.size, toRrm, if_true] at hsize
        omega
      rw [run]
      split
      · rename_i hnil
        have hpass : (s.toRrm dl charges).pass ⟨isDedicatedPRB, tbs.mcsIdx, tbs.numSymbols⟩ =
            none := by
          simp [RrmLoop.pass, toRrm, hnil]
        exact .inl ⟨s, charges, rfl, (ends_iff_of_none hpass).mp hends⟩
      · rename_i n rest hcons
        split
        · rename_i hzero
          have hpass : (s.toRrm dl charges).pass ⟨isDedicatedPRB, tbs.mcsIdx, tbs.numSymbols⟩ =
              some (toRrm dl charges { s with lcLL := rest }) := by
            simp [RrmLoop.pass, toRrm, hcons, hzero]
          refine run_toRrm (hless hpass) (hrem.pass hpass) ⟨hwidth.prb, fun m hm => ?_⟩
            ((ends_iff_of_some hpass).mp hends)
          exact hwidth.req m (hcons ▸ List.mem_cons_of_mem _ hm)
        rename_i hne
        split
        · rename_i halloc
          have hpass : (s.toRrm dl charges).pass ⟨isDedicatedPRB, tbs.mcsIdx, tbs.numSymbols⟩ =
              none := by
            simp [RrmLoop.pass, toRrm, hcons, halloc]
          exact .inl ⟨s, charges, rfl, (ends_iff_of_none hpass).mp hends⟩
        rename_i halloc
        split
        · rename_i hex
          have hpass : (s.toRrm dl charges).pass ⟨isDedicatedPRB, tbs.mcsIdx, tbs.numSymbols⟩ =
              none := by
            have hex' : (s.toRrm dl charges).exhausted
              ⟨isDedicatedPRB, tbs.mcsIdx, tbs.numSymbols⟩ = true := hex
            simp only [RrmLoop.pass, hex']
            simp [toRrm, hcons, hne, halloc]
          exact .inl ⟨s, charges, rfl, (ends_iff_of_none hpass).mp hends⟩
        rename_i hex
        have hserves : (s.toRrm dl charges).Serves ⟨isDedicatedPRB, tbs.mcsIdx, tbs.numSymbols⟩ n
            rest := ⟨rfl, hcons, fun hz => hne ⟨hz, not_not.mp halloc⟩, not_not.mp halloc,
          Bool.eq_false_iff.mpr hex⟩
        have hn : n ∈ s.lcLL := hcons ▸ List.mem_cons_self
        obtain ⟨hnone, htake⟩ | ⟨c, t', hc, htake, hid, hprb, hextra, hlt⟩ :=
          charge_toRrm tbs isDedicatedPRB charges hwidth hn
        · rw [htake]
          obtain rfl := (RrmLoop.ends_of_charge_none hserves hnone).unique hends
          exact .inr ⟨rfl, rfl⟩
        · rw [htake]
          have hpass := hserves.pass hc
          rw [serve_toRrm hid hprb hextra] at hpass
          exact run_toRrm (hless hpass) (hrem.pass hpass) (hwidth.serve hcons hlt)
            ((ends_iff_of_some hpass).mp hends)

end

end LcLoop

/-- **For one direction, the loop ends with what `prbAllocUsingRRMPolicy` gives, or where an estimate
is not defined.** -/
theorem prbAllocUsingRRMPolicy_ends (dl isDedicatedPRB : Bool) (tbs : TbCfg)
    {sharedPRB reservedPRB : ℕ} {first : Bool} {lcLL : List LcInfo}
    (hprb : reservedPRB + sharedPRB < 2 ^ 16)
    (hreq : ∀ n ∈ lcLL, n.reqBO + (if first && !dl then UL_GRANT_SIZE else 0) < 2 ^ 32) :
    ∃ t, Ends (RrmLoop.pass ⟨isDedicatedPRB, tbs.mcsIdx, tbs.numSymbols⟩)
        (RrmLoop.start ⟨isDedicatedPRB, tbs.mcsIdx, tbs.numSymbols⟩ lcLL sharedPRB reservedPRB
          (if dl then some (!first) else none) (if dl then none else some first)) t ∧
      ((∃ s charges, prbAllocUsingRRMPolicy (lcTake dl tbs) isDedicatedPRB sharedPRB reservedPRB
          first lcLL = some s ∧ t = s.toRrm dl charges) ∨
        (prbAllocUsingRRMPolicy (lcTake dl tbs) isDedicatedPRB sharedPRB reservedPRB first lcLL =
          none ∧ t.defined = false)) := by
  have hrem : RrmLoop.RemOk ⟨isDedicatedPRB, tbs.mcsIdx, tbs.numSymbols⟩ (LcLoop.toRrm dl []
      ⟨lcLL, sharedPRB, if isDedicatedPRB then reservedPRB else 0, first⟩) := by
    cases isDedicatedPRB with
    | true => exact .inl rfl
    | false => exact .inr rfl
  have hle : (if isDedicatedPRB then reservedPRB else 0) ≤ reservedPRB := by
    split <;> omega
  obtain ⟨t, ht⟩ := RrmLoop.ends hrem
  exact ⟨t, ht, LcLoop.run_toRrm (by dsimp only; omega) hrem ⟨by dsimp only; omega, hreq⟩ ht⟩

end OaiCu.OduSch
