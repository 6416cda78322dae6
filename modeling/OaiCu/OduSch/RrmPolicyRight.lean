import Mathlib.Algebra.BigOperators.Group.List.Lemmas
import Mathlib.Algebra.Order.BigOperators.Group.List
import OaiCu.OduSch.RrmPolicy

/-!
# When `prbAllocUsingRRMPolicy` splits the PRBs right

Each pass may charge more PRBs than there are, wrap a request or cut a number of PRBs to 8 bits. The
result of the loop is right exactly if no pass does so and no channel is served twice.
-/

namespace OaiCu.OduSch

open While

/-! ## What is charged -/

/-- The charges for a channel. -/
def ofLc (lcId : ℕ) (charges : List LcCharge) : List LcCharge := charges.filter (·.lcId = lcId)

/-- The PRBs that are charged. -/
def prbOf (charges : List LcCharge) : ℕ := (charges.map (·.estPrb)).sum

/-- The PRBs that are charged and not there. -/
def overOf (charges : List LcCharge) : ℕ := (charges.map fun c => c.estPrb - c.freePrb).sum

/-- What a channel gets in addition to what it asked for. -/
def grantedOf (lcId : ℕ) (charges : List LcCharge) : ℕ :=
  if ∃ c ∈ charges, c.lcId = lcId ∧ c.extra = .grant then UL_GRANT_SIZE else 0

section

variable {charges : List LcCharge} {c d : LcCharge} {lcId : ℕ}

theorem ofLc_cons (lcId : ℕ) (c : LcCharge) (charges : List LcCharge) :
    ofLc lcId (c :: charges) =
      if c.lcId = lcId then c :: ofLc lcId charges else ofLc lcId charges := by
  unfold ofLc
  rw [List.filter_cons]
  simp only [decide_eq_true_iff]

theorem ofLc_append (lcId : ℕ) (charges : List LcCharge) (c : LcCharge) :
    ofLc lcId (charges ++ [c]) =
      if c.lcId = lcId then ofLc lcId charges ++ [c] else ofLc lcId charges := by
  have hlast := ofLc_cons lcId c []
  unfold ofLc at hlast ⊢
  rw [List.filter_append, hlast, List.filter_nil]
  split
  · rfl
  · rw [List.append_nil]

theorem mem_ofLc : c ∈ ofLc lcId charges ↔ c ∈ charges ∧ c.lcId = lcId := by
  unfold ofLc
  rw [List.mem_filter, decide_eq_true_iff]

theorem ofLc_eq_nil : ofLc lcId charges = [] ↔ ∀ c ∈ charges, c.lcId ≠ lcId := by
  unfold ofLc
  rw [List.filter_eq_nil_iff]
  simp only [decide_eq_true_iff, ne_eq]

theorem prbOf_append (charges charges' : List LcCharge) :
    prbOf (charges ++ charges') = prbOf charges + prbOf charges' := by
  unfold prbOf
  rw [List.map_append, List.sum_append]

theorem overOf_append (charges charges' : List LcCharge) :
    overOf (charges ++ charges') = overOf charges + overOf charges' := by
  unfold overOf
  rw [List.map_append, List.sum_append]

@[simp] theorem prbOf_singleton (c : LcCharge) : prbOf [c] = c.estPrb := by
  simp [prbOf]

@[simp] theorem overOf_singleton (c : LcCharge) : overOf [c] = c.estPrb - c.freePrb := by
  simp [overOf]

/-- Nothing is charged that is not there, if no charge is for more than the free PRBs. -/
theorem overOf_eq_zero : overOf charges = 0 ↔ ∀ c ∈ charges, c.estPrb ≤ c.freePrb := by
  unfold overOf
  rw [List.sum_eq_zero_iff]
  simp only [List.mem_map, forall_exists_index, and_imp, forall_apply_eq_imp_iff₂,
    Nat.sub_eq_zero_iff_le]

end

/-! ## What holds after every pass -/

/-- A list as the scheduler makes it: no channel has two nodes, and nothing is granted yet. -/
structure LcsWaiting (lcLL : List LcInfo) : Prop where
  nodup : (lcLL.map (·.lcId)).Nodup
  allocBO : ∀ n ∈ lcLL, n.allocBO = 0
  reqBO : ∀ n ∈ lcLL, n.reqBO < 2 ^ 32

/-- What a charge is for. -/
structure LcCharge.Made (lcLL : List LcInfo) (c : LcCharge) : Prop where
  two_le : 2 ≤ c.estPrb
  est_le : c.est ≤ c.extra.arg c.before.reqBO
  reqBO_lt : c.before.reqBO < 2 ^ 32
  origin : ∃ n ∈ lcLL, n.lcId = c.lcId ∧ n.reqBO ≠ 0

namespace RrmLoop

/-- How the nodes, the PRBs and the charges go together, for a loop that was entered with `lcLL`. -/
structure Inv (cfg : RrmCfg) (lcLL : List LcInfo) (sharedPRB reservedPRB : ℕ) (s : RrmLoop) :
    Prop where
  remOk : s.RemOk cfg
  nodup : (s.lcLL.map (·.lcId)).Nodup
  rem_le : s.remReservedPRB ≤ reservedPRB
  account : s.sharedPRB + s.remReservedPRB + prbOf s.charges =
    sharedPRB + reservedPRB + overOf s.charges
  made : ∀ c ∈ s.charges, c.Made lcLL
  first : ∀ c, ofLc c.lcId s.charges = [c] → c.before ∈ lcLL
  node : ∀ n ∈ s.lcLL, (ofLc n.lcId s.charges = [] ∧ n ∈ lcLL) ∨
    ∃ front c, ofLc n.lcId s.charges = front ++ [c] ∧ n = c.after
  kept : ∀ n ∈ lcLL, n.reqBO ≠ 0 → (∃ n' ∈ s.lcLL, n'.lcId = n.lcId) ∨
    ∃ c ∈ s.charges, c.lcId = n.lcId ∧ c.after.reqBO = 0 ∧ c.after.allocBO = 0

section

variable {cfg : RrmCfg} {lcLL : List LcInfo} {sharedPRB reservedPRB : ℕ} {s s' : RrmLoop}

theorem inv_start (cfg : RrmCfg) (hl : LcsWaiting lcLL) (sharedPRB reservedPRB : ℕ)
    (isTxPayloadLenAdded srRcvd : Option Bool) :
    (start cfg lcLL sharedPRB reservedPRB isTxPayloadLenAdded srRcvd).Inv cfg lcLL sharedPRB
      (if cfg.isDedicatedPRB then reservedPRB else 0) where
  remOk := by
    unfold RemOk start
    cases cfg.isDedicatedPRB with
    | true => exact .inl rfl
    | false => exact .inr rfl
  nodup := hl.nodup
  rem_le := le_rfl
  account := rfl
  made := nofun
  first := nofun
  node := fun n hn => .inl ⟨rfl, hn⟩
  kept := fun n hn _ => .inl ⟨n, hn, rfl⟩

/-- What the node of a channel asks for has 32 bits. -/
theorem Inv.reqBO_lt (h : s.Inv cfg lcLL sharedPRB reservedPRB) (hl : LcsWaiting lcLL) {n : LcInfo}
    (hn : n ∈ s.lcLL) : n.reqBO < 2 ^ 32 := by
  rcases h.node n hn with ⟨-, hmem⟩ | ⟨front, c, -, rfl⟩
  · exact hl.reqBO n hmem
  · exact Nat.mod_lt _ (by decide)

/-- A node with a request is that of a channel that came with one. -/
theorem Inv.origin (h : s.Inv cfg lcLL sharedPRB reservedPRB) {n : LcInfo} (hn : n ∈ s.lcLL)
    (hreq : n.reqBO ≠ 0) : ∃ m ∈ lcLL, m.lcId = n.lcId ∧ m.reqBO ≠ 0 := by
  rcases h.node n hn with ⟨-, hmem⟩ | ⟨front, c, hof, rfl⟩
  · exact ⟨n, hmem, rfl, hreq⟩
  · have hc : c ∈ s.charges := by
      apply (@mem_ofLc _ _ c.after.lcId).mp _ |>.1
      rw [hof]
      exact List.mem_append_right _ List.mem_cons_self
    exact (h.made c hc).origin

/-- A node that needs nothing is dropped. -/
theorem Inv.drop (h : s.Inv cfg lcLL sharedPRB reservedPRB) (hl : LcsWaiting lcLL) {n : LcInfo}
    {rest : List LcInfo} (hcons : s.lcLL = n :: rest) (hreq : n.reqBO = 0)
    (halloc : n.allocBO = 0) :
    ({ s with lcLL := rest } : RrmLoop).Inv cfg lcLL sharedPRB reservedPRB where
  remOk := h.remOk
  nodup := by
    have hnd := h.nodup
    rw [hcons, List.map_cons, List.nodup_cons] at hnd
    exact hnd.2
  rem_le := h.rem_le
  account := h.account
  made := h.made
  first := h.first
  node := fun m hm => h.node m (hcons ▸ List.mem_cons_of_mem _ hm)
  kept := by
    intro m hm hne
    rcases h.kept m hm hne with ⟨n', hn', hid⟩ | hcharge
    · rw [hcons] at hn'
      rcases List.mem_cons.mp hn' with rfl | hn'
      · rcases h.node n' (hcons ▸ List.mem_cons_self) with ⟨-, hmem⟩ | ⟨front, c, hof, rfl⟩
        · have heq := List.inj_on_of_nodup_map hl.nodup hmem hm hid
          exact absurd (heq ▸ hreq) hne
        · have hc := List.mem_append_right front (List.mem_cons_self (a := c) (l := []))
          rw [← hof, mem_ofLc] at hc
          exact .inr ⟨c, hc.1, hid, hreq, halloc⟩
      · exact .inl ⟨n', hn', hid⟩
    · exact .inr hcharge

/-- The head is served. -/
theorem Inv.serve (h : s.Inv cfg lcLL sharedPRB reservedPRB) (hl : LcsWaiting lcLL) {n : LcInfo}
    {rest : List LcInfo} {c : LcCharge} (hs : s.Serves cfg n rest) (hc : s.charge cfg n = some c) :
    (s.serve cfg c rest).Inv cfg lcLL sharedPRB reservedPRB := by
  obtain ⟨hest, htwo, -⟩ := charge_bounds hc
  obtain ⟨hbefore, -, hfree, -⟩ := charge_spec hc
  obtain ⟨hrem, hshared⟩ := usePrb_spec h.remOk c.estPrb
  have hn : n ∈ s.lcLL := hs.lcLL ▸ List.mem_cons_self
  have hid : c.lcId = n.lcId := congrArg LcInfo.lcId hbefore
  have hnd := h.nodup
  rw [hs.lcLL, List.map_cons, List.nodup_cons, List.mem_map] at hnd
  have hother : ∀ m ∈ rest, c.lcId ≠ m.lcId := fun m hm heq => hnd.1 ⟨m, hm, (hid ▸ heq).symm⟩
  refine ⟨?_, ?_, ?_, ?_, ?_, ?_, ?_, ?_⟩
  · exact h.remOk.pass (hs.pass hc)
  · show ((rest ++ [c.after]).map (·.lcId)).Nodup
    rw [List.map_append, List.nodup_append]
    refine ⟨hnd.2, List.nodup_singleton _, ?_⟩
    rintro a ha b hb rfl
    obtain ⟨m, hm, rfl⟩ := List.mem_map.mp ha
    exact hother m hm (List.mem_singleton.mp hb).symm
  · show (s.usePrb cfg c.estPrb).remReservedPRB ≤ reservedPRB
    have := h.rem_le
    omega
  · show (s.usePrb cfg c.estPrb).sharedPRB + (s.usePrb cfg c.estPrb).remReservedPRB +
      prbOf (s.charges ++ [c]) = sharedPRB + reservedPRB + overOf (s.charges ++ [c])
    have haccount := h.account
    rw [prbOf_append, overOf_append, prbOf_singleton, overOf_singleton]
    omega
  · intro d hd
    rcases List.mem_append.mp hd with hd | hd
    · exact h.made d hd
    · obtain rfl := List.mem_singleton.mp hd
      obtain ⟨m, hm, hmid, hmreq⟩ := h.origin hn hs.reqBO
      exact ⟨htwo, hest, hbefore ▸ h.reqBO_lt hl hn, m, hm, hmid.trans hid.symm, hmreq⟩
  · intro d hd
    have hd' : ofLc d.lcId (s.charges ++ [c]) = [d] := hd
    rw [ofLc_append] at hd'
    split at hd'
    · rename_i heq
      have hlen := congrArg List.length hd'
      rw [List.length_append, List.length_singleton, List.length_singleton] at hlen
      have hnil : ofLc d.lcId s.charges = [] := List.eq_nil_of_length_eq_zero (by omega)
      rw [hnil, List.nil_append, List.cons.injEq] at hd'
      obtain rfl := hd'.1
      rw [hbefore]
      rcases h.node n hn with ⟨-, hmem⟩ | ⟨front, d, hof, -⟩
      · exact hmem
      · rw [← hid, hnil] at hof
        exact absurd hof.symm (List.append_ne_nil_of_right_ne_nil front nofun)
    · exact h.first d hd'
  · intro m hm
    show (ofLc m.lcId (s.charges ++ [c]) = [] ∧ m ∈ lcLL) ∨
      ∃ front d, ofLc m.lcId (s.charges ++ [c]) = front ++ [d] ∧ m = d.after
    rcases List.mem_append.mp hm with hm | hm
    · rw [ofLc_append, if_neg (hother m hm)]
      exact h.node m (hs.lcLL ▸ List.mem_cons_of_mem _ hm)
    · obtain rfl := List.mem_singleton.mp hm
      right
      rw [ofLc_append, if_pos c.after_lcId.symm]
      exact ⟨_, c, rfl, rfl⟩
  · intro m hm hne
    rcases h.kept m hm hne with ⟨n', hn', hid'⟩ | ⟨d, hd, hkept⟩
    · left
      rw [hs.lcLL] at hn'
      rcases List.mem_cons.mp hn' with rfl | hn'
      · exact ⟨c.after, List.mem_append_right _ List.mem_cons_self, hid.trans hid'⟩
      · exact ⟨n', List.mem_append_left _ hn', hid'⟩
    · exact .inr ⟨d, List.mem_append_left _ hd, hkept⟩

theorem Inv.pass (h : s.Inv cfg lcLL sharedPRB reservedPRB) (hl : LcsWaiting lcLL)
    (hpass : s.pass cfg = some s') : s'.Inv cfg lcLL sharedPRB reservedPRB := by
  rcases pass_cases cfg s with ⟨hnone, -⟩ | ⟨n, rest, hcons, hreq, halloc, heq, -⟩ |
    ⟨n, rest, -, -, heq⟩ | ⟨n, rest, c, hs, hc, heq⟩
  · rw [hnone] at hpass
    cases hpass
  · rw [heq] at hpass
    cases hpass
    exact h.drop hl hcons hreq halloc
  · rw [heq] at hpass
    cases hpass
    exact ⟨h.remOk, h.nodup, h.rem_le, h.account, h.made, h.first, h.node, h.kept⟩
  · rw [heq] at hpass
    cases hpass
    exact h.serve hl hs hc

theorem Inv.ends (h : s.Inv cfg lcLL sharedPRB reservedPRB) (hl : LcsWaiting lcLL) {t : RrmLoop}
    (hends : Ends (RrmLoop.pass cfg) s t) : t.Inv cfg lcLL sharedPRB reservedPRB := by
  induction hends with
  | left _ => exact h
  | again hpass _ ih => exact ih (h.pass hl hpass)

end

end RrmLoop

/-! ## The condition on a pass -/

/-- What is added to the request and taken off the estimate does not wrap. -/
def LcExtra.Fits (extra : LcExtra) (reqBO est : ℕ) : Prop :=
  match extra with
  | .header => reqBO + TX_PAYLOAD_HDR_LEN < 2 ^ 32 ∧ TX_PAYLOAD_HDR_LEN ≤ est
  | .grant => reqBO + UL_GRANT_SIZE < 2 ^ 32
  | .nothing => True

/-- The PRBs that are charged are free, have 8 bits, and carry the estimate. -/
structure ChargeRight (cfg : RrmCfg) (c : LcCharge) : Prop where
  free : c.estPrb ≤ c.freePrb
  byte : c.estPrb < 2 ^ 8
  carries : ∃ size, tbBytes cfg.mcsIdx cfg.numSymbols c.estPrb = some size ∧ c.est ≤ size
  fits : c.extra.Fits c.before.reqBO c.est

/-- All charges are right and no channel is charged twice. -/
def LogRight (cfg : RrmCfg) (charges : List LcCharge) : Prop :=
  ∀ c ∈ charges, ofLc c.lcId charges = [c] ∧ ChargeRight cfg c

theorem logRight_append {cfg : RrmCfg} {charges : List LcCharge} {c : LcCharge} :
    LogRight cfg (charges ++ [c]) ↔
      LogRight cfg charges ∧ ofLc c.lcId charges = [] ∧ ChargeRight cfg c := by
  have hself : ofLc c.lcId (charges ++ [c]) = ofLc c.lcId charges ++ [c] := by
    rw [ofLc_append, if_pos rfl]
  constructor
  · intro h
    obtain ⟨hof, hc⟩ := h c (List.mem_append_right _ List.mem_cons_self)
    rw [hself] at hof
    have hnil : ofLc c.lcId charges = [] := by simpa using hof
    refine ⟨fun d hd => ?_, hnil, hc⟩
    obtain ⟨hof', hd'⟩ := h d (List.mem_append_left _ hd)
    rw [ofLc_append, if_neg fun heq => ofLc_eq_nil.mp hnil d hd heq.symm] at hof'
    exact ⟨hof', hd'⟩
  · rintro ⟨h, hnil, hc⟩ d hd
    rcases List.mem_append.mp hd with hd | hd
    · rw [ofLc_append, if_neg fun heq => ofLc_eq_nil.mp hnil d hd heq.symm]
      exact h d hd
    · obtain rfl := List.mem_singleton.mp hd
      rw [hself, hnil]
      exact ⟨rfl, hc⟩

namespace RrmLoop

/-- The head of the list, which is served, was not served before. At least two PRBs are free. The
estimate for it is defined, has a number of PRBs of 8 bits whose size is not smaller, and wraps
neither with a header nor with a grant. -/
structure ServeRight (cfg : RrmCfg) (s : RrmLoop) (n : LcInfo) : Prop where
  fresh : ∀ c ∈ s.charges, c.lcId ≠ n.lcId
  two_le : 2 ≤ s.remReservedPRB + s.sharedPRB
  est : ∃ est estPrb size, estimateTbSize cfg.mcsIdx cfg.numSymbols (s.extra.arg n.reqBO)
      ((s.remReservedPRB + s.sharedPRB) % 2 ^ 16) = some (est, estPrb) ∧ estPrb < 2 ^ 8 ∧
    tbBytes cfg.mcsIdx cfg.numSymbols estPrb = some size ∧ est ≤ size ∧
    s.extra.Fits n.reqBO est

/-- The condition on a pass. -/
def Meets (cfg : RrmCfg) (s : RrmLoop) : Prop :=
  ∀ n rest, s.Serves cfg n rest → s.ServeRight cfg n

section

variable {cfg : RrmCfg} {s s' t : RrmLoop} {n : LcInfo} {c : LcCharge}

theorem serveRight_iff (hc : s.charge cfg n = some c) :
    s.ServeRight cfg n ↔ ofLc c.lcId s.charges = [] ∧ ChargeRight cfg c := by
  obtain ⟨rfl, hextra, hfree, hest⟩ := charge_spec hc
  obtain ⟨-, -, htwo⟩ := charge_bounds hc
  rw [ofLc_eq_nil]
  constructor
  · rintro ⟨hfresh, h2, est, estPrb, size, hest', hbyte, hsize, hle, hfits⟩
    obtain ⟨rfl, rfl⟩ := Prod.mk.inj (Option.some.inj (hest.symm.trans hest'))
    exact ⟨hfresh, htwo.mpr h2, hbyte, ⟨size, hsize, hle⟩, hextra ▸ hfits⟩
  · rintro ⟨hfresh, hle, hbyte, ⟨size, hsize, hest'⟩, hfits⟩
    exact ⟨hfresh, htwo.mp hle, c.est, c.estPrb, size, hest, hbyte, hsize, hest', hextra ▸ hfits⟩

/-- A pass keeps the charges right exactly if it meets the condition. -/
theorem logRight_pass (hpass : s.pass cfg = some s') :
    (s'.defined = true ∧ LogRight cfg s'.charges) ↔
      (s.defined = true ∧ LogRight cfg s.charges) ∧ s.Meets cfg := by
  rcases pass_cases cfg s with ⟨hnone, -⟩ | ⟨n, rest, -, -, -, heq, hno⟩ |
    ⟨n, rest, hs, hc, heq⟩ | ⟨n, rest, c, hs, hc, heq⟩
  · rw [hnone] at hpass
    cases hpass
  · rw [heq] at hpass
    cases hpass
    have hmeets : s.Meets cfg := fun n rest h => absurd h (hno n rest)
    rw [and_iff_left hmeets]
  · rw [heq] at hpass
    cases hpass
    refine iff_of_false (fun h => Bool.false_ne_true h.1) ?_
    rintro ⟨-, hmeets⟩
    obtain ⟨-, -, est, estPrb, -, hest, -⟩ := hmeets n rest hs
    unfold charge at hc
    dsimp only at hc
    rw [hest] at hc
    cases hc
  · rw [heq] at hpass
    cases hpass
    have hdef : (s.serve cfg c rest).defined = s.defined := by
      show (s.usePrb cfg c.estPrb).defined = s.defined
      unfold usePrb
      split <;> rfl
    have hmeets : s.Meets cfg ↔ s.ServeRight cfg n := by
      constructor
      · intro h
        exact h n rest hs
      · intro h n' rest' hs'
        obtain ⟨rfl, -⟩ := hs.unique hs'
        exact h
    rw [hdef, hmeets, serveRight_iff hc, and_assoc]
    exact and_congr_right fun _ => logRight_append

/-- The charges at the end of the loop are right exactly if all passes meet the condition. -/
theorem logRight_ends (hends : Ends (pass cfg) s t) :
    (t.defined = true ∧ LogRight cfg t.charges) ↔
      (s.defined = true ∧ LogRight cfg s.charges) ∧
        ∀ k, Meets cfg (iterate (pass cfg) k s) := by
  induction hends with
  | @left s hnone =>
      have hmeets : ∀ k, Meets cfg (iterate (pass cfg) k s) := fun k => by
        rw [iterate_of_none hnone]
        rcases pass_cases cfg s with ⟨-, hno⟩ | ⟨_, _, -, -, -, heq, -⟩ | ⟨_, _, -, -, heq⟩ |
          ⟨_, _, _, -, -, heq⟩
        · exact fun n rest h => absurd h (hno n rest)
        · exact absurd (hnone.symm.trans heq) nofun
        · exact absurd (hnone.symm.trans heq) nofun
        · exact absurd (hnone.symm.trans heq) nofun
      rw [and_iff_left hmeets]
  | @again s s' t hpass _ ih =>
      rw [ih, logRight_pass hpass, and_assoc]
      refine and_congr_right fun _ => ?_
      constructor
      · rintro ⟨hmeets, hrest⟩ k
        cases k with
        | zero => exact hmeets
        | succ k =>
          rw [iterate_of_some hpass]
          exact hrest k
      · intro h
        refine ⟨h 0, fun k => ?_⟩
        have := h (k + 1)
        rwa [iterate_of_some hpass] at this

end

/-! ## The result of the loop -/

/-- Every channel keeps its request, in what is granted and what is left. The PRBs that are charged
are those of the nodes, were free and are taken off, and carry what is granted. -/
structure PolicyRight (cfg : RrmCfg) (lcLL : List LcInfo) (sharedPRB reservedPRB : ℕ)
    (t : RrmLoop) : Prop where
  defined : t.defined = true
  demand : ∀ n ∈ lcLL, n.reqBO ≠ 0 → ∃ n' ∈ t.lcLL, n'.lcId = n.lcId ∧
    n'.reqBO + n'.allocBO = n.reqBO + grantedOf n.lcId t.charges
  charged : ∀ n ∈ t.lcLL, ofLc n.lcId t.charges ≠ [] →
    n.allocPRB = prbOf (ofLc n.lcId t.charges)
  available : prbOf t.charges ≤ sharedPRB + reservedPRB
  shared : t.sharedPRB + prbOf t.charges = sharedPRB + (reservedPRB - t.remReservedPRB)
  carries : ∀ n ∈ t.lcLL, ∀ c ∈ t.charges, c.lcId = n.lcId →
    ∃ size, tbBytes cfg.mcsIdx cfg.numSymbols n.allocPRB = some size ∧
      n.allocBO + (if c.extra = .header then TX_PAYLOAD_HDR_LEN else 0) ≤ size

section

variable {cfg : RrmCfg} {lcLL : List LcInfo} {sharedPRB reservedPRB : ℕ} {t : RrmLoop}
  {c : LcCharge} {mcs numSymbols numPrb : ℕ}

/-- A node has its request and carries its grant exactly if nothing wraps. -/
theorem after_right_iff (hc : c.Made lcLL) :
    (c.after.reqBO + c.after.allocBO =
        c.before.reqBO + (if c.extra = .grant then UL_GRANT_SIZE else 0) ∧
      ∃ size, tbBytes mcs numSymbols numPrb = some size ∧
        c.after.allocBO + (if c.extra = .header then TX_PAYLOAD_HDR_LEN else 0) ≤ size) ↔
      c.extra.Fits c.before.reqBO c.est ∧
        ∃ size, tbBytes mcs numSymbols numPrb = some size ∧ c.est ≤ size := by
  obtain ⟨-, hest, hreq, -⟩ := hc
  unfold LcCharge.after LcExtra.after LcExtra.Fits
  unfold LcExtra.arg at hest
  cases htb : tbBytes mcs numSymbols numPrb with
  | none => simp only [reduceCtorEq, false_and, exists_false, and_false]
  | some size =>
      have hsize := tbBytes_lt htb
      simp only [Option.some_inj, exists_eq_left']
      unfold TX_PAYLOAD_HDR_LEN UL_GRANT_SIZE at *
      cases hextra : c.extra with
      | header =>
          rw [hextra] at hest
          simp only [reduceCtorEq, if_true, if_false] at hest ⊢
          omega
      | grant =>
          rw [hextra] at hest
          simp only [reduceCtorEq, if_true, if_false] at hest ⊢
          omega
      | nothing =>
          rw [hextra] at hest
          simp only [reduceCtorEq, if_false] at hest ⊢
          have hback : (c.before.reqBO + 2 ^ 32 - c.est) % 2 ^ 32 + c.est = c.before.reqBO := by
            omega
          rw [hback, true_and, Nat.add_zero, Nat.add_zero, and_iff_right rfl]

/-- The grants are those of the only charge for the channel. -/
theorem grantedOf_eq (h : ofLc c.lcId t.charges = [c]) :
    grantedOf c.lcId t.charges = if c.extra = .grant then UL_GRANT_SIZE else 0 := by
  unfold grantedOf
  have hiff : (∃ d ∈ t.charges, d.lcId = c.lcId ∧ d.extra = .grant) ↔ c.extra = .grant := by
    constructor
    · rintro ⟨d, hd, hid, hextra⟩
      have hmem : d ∈ ofLc c.lcId t.charges := mem_ofLc.mpr ⟨hd, hid⟩
      rw [h, List.mem_singleton] at hmem
      exact hmem ▸ hextra
    · intro hextra
      have hmem : c ∈ ofLc c.lcId t.charges := h ▸ List.mem_cons_self
      exact ⟨c, (mem_ofLc.mp hmem).1, rfl, hextra⟩
  simp only [hiff]

/-- Without charges there are no grants. -/
theorem grantedOf_eq_zero {lcId : ℕ} (h : ofLc lcId t.charges = []) :
    grantedOf lcId t.charges = 0 := by
  unfold grantedOf
  rw [if_neg]
  rintro ⟨c, hc, hid, -⟩
  exact ofLc_eq_nil.mp h c hc hid

/-- If a node has all PRBs that are charged for its channel, it is charged once. -/
theorem Inv.charged_once (h : t.Inv cfg lcLL sharedPRB reservedPRB) {n : LcInfo}
    (hn : n ∈ t.lcLL) (hc : c ∈ ofLc n.lcId t.charges)
    (hprb : n.allocPRB = prbOf (ofLc n.lcId t.charges)) :
    ofLc c.lcId t.charges = [c] ∧ n = c.after ∧ c.estPrb < 2 ^ 8 := by
  rcases h.node n hn with ⟨hnil, -⟩ | ⟨front, d, hof, rfl⟩
  · rw [hnil] at hc
    cases hc
  · rw [hof, prbOf_append, prbOf_singleton] at hprb
    have hmod := d.after_allocPRB
    have hfront : front = [] := by
      cases front with
      | nil => rfl
      | cons e front =>
        -- a charge in front has two PRBs at least, which the node would lack
        have he : e ∈ ofLc d.after.lcId t.charges := hof ▸ List.mem_cons_self
        have htwo := (h.made e (mem_ofLc.mp he).1).two_le
        have hcons : prbOf (e :: front) = e.estPrb + prbOf front := by
          unfold prbOf
          rw [List.map_cons, List.sum_cons]
        have hle := Nat.mod_le d.estPrb (2 ^ 8)
        omega
    subst hfront
    rw [List.nil_append] at hof
    rw [hof, List.mem_singleton] at hc
    subst hc
    refine ⟨hof, rfl, ?_⟩
    unfold prbOf at hprb
    rw [List.map_nil, List.sum_nil, hmod] at hprb
    omega

/-- Charges that are not right show in the result. -/
theorem PolicyRight.logRight (hr : PolicyRight cfg lcLL sharedPRB reservedPRB t)
    (h : t.Inv cfg lcLL sharedPRB reservedPRB) (hl : LcsWaiting lcLL) : LogRight cfg t.charges := by
  intro c hc
  have hover : overOf t.charges = 0 := by
    have haccount := h.account
    have hrem := h.rem_le
    have hshared := hr.shared
    omega
  obtain ⟨n, hn, hid, hreq⟩ := (h.made c hc).origin
  obtain ⟨n', hn', hid', hdemand⟩ := hr.demand n hn hreq
  have hmem : c ∈ ofLc n'.lcId t.charges := mem_ofLc.mpr ⟨hc, (hid'.trans hid).symm⟩
  obtain ⟨hof, rfl, hbyte⟩ := h.charged_once hn' hmem
    (hr.charged n' hn' (List.ne_nil_of_mem hmem))
  obtain rfl : c.before = n :=
    List.inj_on_of_nodup_map hl.nodup (h.first c hof) hn hid.symm
  obtain ⟨size, hsize, hle⟩ := hr.carries _ hn' c hc c.after_lcId.symm
  rw [c.after_allocPRB, Nat.mod_eq_of_lt hbyte] at hsize
  rw [hid, grantedOf_eq hof] at hdemand
  obtain ⟨hfits, hcarries⟩ := (after_right_iff (h.made c hc)).mp ⟨hdemand, size, hsize, hle⟩
  exact ⟨hof, overOf_eq_zero.mp hover c hc, hbyte, hcarries, hfits⟩

/-- The node of a charge that is right is the one that it left. -/
theorem Inv.node_of_charge (h : t.Inv cfg lcLL sharedPRB reservedPRB)
    (hlog : LogRight cfg t.charges) {n : LcInfo} (hn : n ∈ t.lcLL) (hc : c ∈ t.charges)
    (hid : c.lcId = n.lcId) : n = c.after := by
  rcases h.node n hn with ⟨hnil, -⟩ | ⟨front, d, hof, rfl⟩
  · exact absurd hid (ofLc_eq_nil.mp hnil c hc)
  · have hd : d ∈ ofLc d.after.lcId t.charges :=
      hof ▸ List.mem_append_right _ List.mem_cons_self
    have hcd : c ∈ ofLc d.lcId t.charges := mem_ofLc.mpr ⟨hc, hid⟩
    rw [(hlog d (mem_ofLc.mp hd).1).1, List.mem_singleton] at hcd
    rw [hcd]

/-- What a charge that is right leaves. -/
theorem Inv.after_of_charge (h : t.Inv cfg lcLL sharedPRB reservedPRB)
    (hlog : LogRight cfg t.charges) (hc : c ∈ t.charges) :
    c.before ∈ lcLL ∧ c.after.allocPRB = c.estPrb ∧
      c.after.reqBO + c.after.allocBO = c.before.reqBO + grantedOf c.lcId t.charges ∧
      ∃ size, tbBytes cfg.mcsIdx cfg.numSymbols c.estPrb = some size ∧
        c.after.allocBO + (if c.extra = .header then TX_PAYLOAD_HDR_LEN else 0) ≤ size := by
  obtain ⟨hof, hright⟩ := hlog c hc
  rw [c.after_allocPRB, Nat.mod_eq_of_lt hright.byte, grantedOf_eq hof]
  exact ⟨h.first c hof, rfl, (after_right_iff (h.made c hc)).mpr ⟨hright.fits, hright.carries⟩⟩

/-- With charges that are right a channel keeps its request. -/
theorem Inv.demand (h : t.Inv cfg lcLL sharedPRB reservedPRB) (hl : LcsWaiting lcLL)
    (hlog : LogRight cfg t.charges) {n : LcInfo} (hn : n ∈ lcLL) (hreq : n.reqBO ≠ 0) :
    ∃ n' ∈ t.lcLL, n'.lcId = n.lcId ∧
      n'.reqBO + n'.allocBO = n.reqBO + grantedOf n.lcId t.charges := by
  have same : ∀ {c : LcCharge}, c ∈ t.charges → c.lcId = n.lcId → c.before = n := fun hc hid =>
    List.inj_on_of_nodup_map hl.nodup (h.after_of_charge hlog hc).1 hn hid
  rcases h.kept n hn hreq with ⟨n', hn', hid⟩ | ⟨c, hc, hid, hreq', halloc'⟩
  · refine ⟨n', hn', hid, ?_⟩
    rcases h.node n' hn' with ⟨hnil, hmem⟩ | ⟨front, c, hof, rfl⟩
    · obtain rfl := List.inj_on_of_nodup_map hl.nodup hmem hn hid
      rw [hl.allocBO n' hn, grantedOf_eq_zero hnil]
    · have hmem : c ∈ ofLc c.after.lcId t.charges :=
        hof ▸ List.mem_append_right _ List.mem_cons_self
      have hc := (mem_ofLc.mp hmem).1
      have hdemand := (h.after_of_charge hlog hc).2.2.1
      rw [same hc hid] at hdemand
      rw [hdemand, ← hid, c.after_lcId]
  · have hdemand := (h.after_of_charge hlog hc).2.2.1
    rw [same hc hid] at hdemand
    omega

/-- The result is right exactly if the charges are. -/
theorem policyRight_iff (h : t.Inv cfg lcLL sharedPRB reservedPRB) (hl : LcsWaiting lcLL) :
    PolicyRight cfg lcLL sharedPRB reservedPRB t ↔
      t.defined = true ∧ LogRight cfg t.charges := by
  refine ⟨fun hr => ⟨hr.defined, hr.logRight h hl⟩, fun ⟨hdef, hlog⟩ => ?_⟩
  have haccount := h.account
  have hrem := h.rem_le
  have hover : overOf t.charges = 0 := overOf_eq_zero.mpr fun c hc => (hlog c hc).2.free
  refine ⟨hdef, fun n hn hreq => h.demand hl hlog hn hreq, fun n hn hne => ?_, by omega, by omega,
    fun n hn c hc hid => ?_⟩
  · obtain ⟨c, hmem⟩ := List.exists_mem_of_ne_nil _ hne
    obtain ⟨hc, hid⟩ := mem_ofLc.mp hmem
    rw [h.node_of_charge hlog hn hc hid, c.after_lcId, (hlog c hc).1, prbOf_singleton]
    exact (h.after_of_charge hlog hc).2.1
  · obtain ⟨-, hprb, -, hcarries⟩ := h.after_of_charge hlog hc
    rw [h.node_of_charge hlog hn hc hid, hprb]
    exact hcarries

end

end RrmLoop

open RrmLoop

/-- The loop ends, and its result is right exactly if each pass that serves a channel meets the
condition. -/
theorem prbAllocUsingRRMPolicy_right_iff (cfg : RrmCfg) {lcLL : List LcInfo}
    (hl : LcsWaiting lcLL) (sharedPRB reservedPRB : ℕ) (isTxPayloadLenAdded srRcvd : Option Bool) :
    ∃ t, Ends (pass cfg) (start cfg lcLL sharedPRB reservedPRB isTxPayloadLenAdded srRcvd) t ∧
      (PolicyRight cfg lcLL sharedPRB (if cfg.isDedicatedPRB then reservedPRB else 0) t ↔
        ∀ k, Meets cfg
          (iterate (pass cfg) k
            (start cfg lcLL sharedPRB reservedPRB isTxPayloadLenAdded srRcvd))) := by
  have hinv := inv_start cfg hl sharedPRB reservedPRB isTxPayloadLenAdded srRcvd
  obtain ⟨t, hends⟩ := RrmLoop.ends hinv.remOk
  refine ⟨t, hends, ?_⟩
  rw [policyRight_iff (hinv.ends hl hends) hl, logRight_ends hends]
  exact and_iff_right ⟨rfl, nofun⟩

/-- A dedicated slice of 10 PRBs with two channels, and 40 more PRBs. -/
def twoLcs : RrmLoop := start ⟨true, 10, 14⟩ [⟨4, 500, 0, 0⟩, ⟨5, 5000, 0, 0⟩] 40 10 (some false) none

/-- The first channel has 23 PRBs for its request and the header, 10 of which are reserved. -/
def oneLcServed : RrmLoop where
  lcLL := [⟨5, 5000, 0, 0⟩, ⟨4, 0, 500, 23⟩]
  sharedPRB := 27
  remReservedPRB := 0
  isTxPayloadLenAdded := some true
  srRcvd := none
  defined := true
  charges := [⟨⟨4, 500, 0, 0⟩, .header, 50, 532, 23⟩]

/-- The second one has the 27 that are left. -/
def twoLcsServed : RrmLoop where
  lcLL := [⟨4, 0, 500, 23⟩, ⟨5, 4344, 656, 27⟩]
  sharedPRB := 0
  remReservedPRB := 0
  isTxPayloadLenAdded := some true
  srRcvd := none
  defined := true
  charges := [⟨⟨4, 500, 0, 0⟩, .header, 50, 532, 23⟩, ⟨⟨5, 5000, 0, 0⟩, .nothing, 27, 656, 27⟩]

theorem twoLcs_meets (k : ℕ) : Meets ⟨true, 10, 14⟩ (iterate (pass ⟨true, 10, 14⟩) k twoLcs) := by
  have h0 : pass ⟨true, 10, 14⟩ twoLcs = some oneLcServed := by decide +kernel
  have h1 : pass ⟨true, 10, 14⟩ oneLcServed = some twoLcsServed := by decide +kernel
  match k with
  | 0 =>
      rintro n rest hserves
      obtain ⟨rfl, -⟩ := List.cons.inj hserves.lcLL
      exact ⟨nofun, by decide, 532, 23, 592, by decide +kernel, by decide, by decide +kernel,
        by decide, by decide, by decide⟩
  | 1 =>
      rw [iterate_of_some h0]
      rintro n rest hserves
      obtain ⟨rfl, -⟩ := List.cons.inj hserves.lcLL
      exact ⟨by decide, by decide, 656, 27, 688, by decide +kernel, by decide, by decide +kernel,
        by decide, trivial⟩
  | k + 2 =>
      rw [iterate_of_some h0, iterate_of_some h1, iterate_of_none (by decide)]
      rintro n rest hserves
      obtain ⟨rfl, -⟩ := List.cons.inj hserves.lcLL
      cases hserves.allocBO

theorem prbAllocUsingRRMPolicy_right_two : ∃ t, Ends (pass ⟨true, 10, 14⟩) twoLcs t ∧
    PolicyRight ⟨true, 10, 14⟩ [⟨4, 500, 0, 0⟩, ⟨5, 5000, 0, 0⟩] 40 10 t := by
  have hwaiting : LcsWaiting [⟨4, 500, 0, 0⟩, ⟨5, 5000, 0, 0⟩] := ⟨by decide, by decide, by decide⟩
  obtain ⟨t, hends, hright⟩ := prbAllocUsingRRMPolicy_right_iff ⟨true, 10, 14⟩ hwaiting 40 10
    (some false) none
  exact ⟨t, hends, hright.mpr twoLcs_meets⟩

/-- Two PRBs are free, and the estimate is for one of them. Its 11 bytes are less than the header,
so that the grant wraps. -/
theorem prbAllocUsingRRMPolicy_wraps :
    ∃ t, Ends (pass ⟨false, 4, 14⟩) (start ⟨false, 4, 14⟩ [⟨1, 100, 0, 0⟩] 2 0 (some false) none) t ∧
      t.lcLL = [⟨1, 121, 2 ^ 32 - 21, 2⟩] ∧
      ¬ PolicyRight ⟨false, 4, 14⟩ [⟨1, 100, 0, 0⟩] 2 0 t := by
  refine ⟨⟨[⟨1, 121, 2 ^ 32 - 21, 2⟩], 0, 0, some true, none, true,
    [⟨⟨1, 100, 0, 0⟩, .header, 2, 11, 2⟩]⟩, .again (by decide +kernel) (.left (by decide +kernel)),
    rfl, fun h => ?_⟩
  obtain ⟨n, hn, -, hdemand⟩ := h.demand ⟨1, 100, 0, 0⟩ List.mem_cons_self (by decide)
  obtain rfl := List.mem_singleton.mp hn
  exact absurd hdemand (by decide)

end OaiCu.OduSch
