import OaiCu.Lib.Lists
import OaiCu.Lib.Serial
import OaiCu.NrRlc.AmRx

/-!
# RLC AM: the receive window

`rx_next`, `rx_highest_status`, `rx_next_highest` and `rx_next_status_trigger` are
residues; their order is the one of their distances from `rx_next`. The invariant
`AmRx.Inv` is preserved by the receive functions whatever PDU comes in.
-/

namespace OaiCu.NrRlc

open Serial

/-- `p` is at or before `q` in `rx_list`, for the modulus base `b`. -/
def posLe (M b : ℤ) (p q : Pdu) : Prop :=
  rel M b p.sn < rel M b q.sn ∨ (p.sn = q.sn ∧ p.so ≤ q.so)

theorem posLe_trans {M b : ℤ} (p q r : Pdu) (h : posLe M b p q) (h' : posLe M b q r) :
    posLe M b p r := by
  unfold posLe at *
  rcases h with h | ⟨h, hso⟩ <;> rcases h' with h' | ⟨h', hso'⟩
  · left; omega
  · left; rw [← h']; exact h
  · left; rw [h]; exact h'
  · right; exact ⟨h.trans h', by omega⟩

/-- The order only looks at the SNs and the SOs. -/
theorem pairwise_posLe_of_keys {M b : ℤ} {l l' : List Pdu}
    (h : l'.map (fun p => (p.sn, p.so)) = l.map (fun p => (p.sn, p.so)))
    (hl : l.Pairwise (posLe M b)) : l'.Pairwise (posLe M b) := by
  have key : ∀ l : List Pdu, l.Pairwise (posLe M b) ↔
      (l.map (fun p => (p.sn, p.so))).Pairwise
        (fun x y => rel M b x.1 < rel M b y.1 ∨ (x.1 = y.1 ∧ x.2 ≤ y.2)) := by
    intro l
    rw [List.pairwise_map]
    rfl
  rw [key, h, ← key]
  exact hl

theorem exists_mem_of_keys {l l' : List Pdu}
    (h : l'.map (fun p => (p.sn, p.so)) = l.map (fun p => (p.sn, p.so))) {p : Pdu}
    (hp : p ∈ l') : ∃ q ∈ l, q.sn = p.sn ∧ q.so = p.so := by
  have : (p.sn, p.so) ∈ l.map (fun p => (p.sn, p.so)) := by
    rw [← h]
    exact List.mem_map_of_mem hp
  obtain ⟨q, hq, hqp⟩ := List.mem_map.mp this
  exact ⟨q, hq, congrArg Prod.fst hqp, congrArg Prod.snd hqp⟩

/-- In a sorted list the PDUs of one SN follow one another: none comes after the run. -/
theorem sn_ne_of_mem_after_run {M b x : ℤ} {l : List Pdu} (h : l.Pairwise (posLe M b)) :
    ∀ q ∈ (fromSn x l).dropWhile (fun p => p.sn = x), q.sn ≠ x := by
  have key : ∀ (p : Pdu) (t : List Pdu), p.sn = x → (∀ q ∈ t, posLe M b p q) →
      t.Pairwise (posLe M b) → ∀ q ∈ t.dropWhile (fun p => p.sn = x), q.sn ≠ x := by
    intro p t hp
    induction t with
    | nil => simp
    | cons r t ih =>
        intro hpt ht
        obtain ⟨hr, ht'⟩ := List.pairwise_cons.mp ht
        by_cases hrx : r.sn = x
        · rw [List.dropWhile_cons_of_pos (by simpa using hrx)]
          exact ih (fun q hq => hpt q (List.mem_cons_of_mem _ hq)) ht'
        · rw [List.dropWhile_cons_of_neg (by simpa using hrx)]
          intro q hq hqx
          rcases List.mem_cons.mp hq with rfl | hq
          · exact hrx hqx
          · rcases hpt r List.mem_cons_self with h1 | ⟨h1, -⟩ <;>
              rcases hr q hq with h2 | ⟨h2, -⟩
            · rw [hp] at h1
              rw [hqx] at h2
              omega
            · exact hrx (h2.trans hqx)
            · exact hrx (h1.symm.trans hp)
            · exact hrx (h2.trans hqx)
  have hsub : (fromSn x l).Pairwise (posLe M b) := h.sublist (List.dropWhile_sublist _)
  cases hf : fromSn x l with
  | nil => simp
  | cons p t =>
      have hp : p.sn = x := sn_of_fromSn_eq_cons hf
      rw [hf] at hsub
      obtain ⟨hpt, ht⟩ := List.pairwise_cons.mp hsub
      rw [List.dropWhile_cons_of_pos (by simpa using hp)]
      exact key p t hp hpt ht

/-! ## The two loops over delivered SDUs -/

section Loops

variable {M b n : ℤ} {l : List Pdu}

/-- The loop stops at an SN that is not delivered, not beyond the end of the list. -/
theorem skipDelivered_spec (hM : 0 < M) (hn : n < M)
    (hmem : ∀ p ∈ l, 0 ≤ p.sn ∧ p.sn < M ∧ rel M b p.sn < n) :
    ∀ (fuel : ℕ) (sn : ℤ), 0 ≤ sn → sn < M → rel M b sn ≤ n →
      l.countP (fun p => rel M b sn ≤ rel M b p.sn) ≤ fuel →
      0 ≤ skipDelivered M l fuel sn ∧ skipDelivered M l fuel sn < M ∧
        rel M b sn ≤ rel M b (skipDelivered M l fuel sn) ∧
        rel M b (skipDelivered M l fuel sn) ≤ n ∧
        sduDelivered l (skipDelivered M l fuel sn) = false := by
  intro fuel
  induction fuel with
  | zero =>
      intro sn h0 h1 hle hcount
      refine ⟨h0, h1, le_refl _, hle, ?_⟩
      rw [skipDelivered]
      by_contra hd
      obtain ⟨p, hp, hps, -⟩ := exists_of_sduDelivered (Bool.not_eq_false _ ▸ hd)
      have hpos : 0 < l.countP (fun p => rel M b sn ≤ rel M b p.sn) :=
        List.countP_pos_iff.mpr ⟨p, hp, by simp [hps]⟩
      omega
  | succ fuel ih =>
      intro sn h0 h1 hle hcount
      by_cases hd : sduDelivered l sn = true
      · obtain ⟨p, hp, hps, -⟩ := exists_of_sduDelivered hd
        have hlt := (hmem p hp).2.2
        rw [hps] at hlt
        have hsucc : rel M b ((sn + 1) % M) = rel M b sn + 1 := rel_succ hM (by omega)
        -- the PDU of `sn` no longer counts
        have hcount' : l.countP (fun p => rel M b ((sn + 1) % M) ≤ rel M b p.sn) <
            l.countP (fun p => rel M b sn ≤ rel M b p.sn) := by
          rw [hsucc]
          refine Lists.countP_lt_of_imp (fun q _ hq => ?_) hp (by simp [hps]) (by simp [hps])
          simp only [decide_eq_true_eq] at hq ⊢
          omega
        have := ih ((sn + 1) % M) (Int.emod_nonneg _ (by omega)) (Int.emod_lt_of_pos _ hM)
          (by omega) (by omega)
        rw [hsucc] at this
        simp only [skipDelivered, hd, if_true]
        exact ⟨this.1, this.2.1, by omega, this.2.2.2⟩
      · simp only [skipDelivered, hd]
        exact ⟨h0, h1, le_refl _, hle, by simpa using hd⟩

theorem one_le_of_mem_dropWhile (hM : 0 < M) (hb0 : 0 ≤ b) (hb : b < M)
    (hmem : ∀ p ∈ l, 0 ≤ p.sn ∧ p.sn < M) (hsort : l.Pairwise (posLe M b)) :
    ∀ q ∈ l.dropWhile (fun q => q.sn = b), 1 ≤ rel M b q.sn := by
  induction l with
  | nil => simp
  | cons x l ih =>
      obtain ⟨hx, hsort'⟩ := List.pairwise_cons.mp hsort
      have hmem' : ∀ p ∈ l, 0 ≤ p.sn ∧ p.sn < M := fun p hp => hmem p (List.mem_cons_of_mem _ hp)
      by_cases hxb : x.sn = b
      · rw [List.dropWhile_cons_of_pos (by simpa using hxb)]
        exact ih hmem' hsort'
      · rw [List.dropWhile_cons_of_neg (by simpa using hxb)]
        have hx1 : 1 ≤ rel M b x.sn := by
          have hr := hmem x List.mem_cons_self
          have h0 := rel_nonneg hM b x.sn
          have hne : rel M b x.sn ≠ 0 := fun h => hxb ((rel_eq_zero hb0 hb hr.1 hr.2).mp h)
          omega
        intro q hq
        rcases List.mem_cons.mp hq with rfl | hq
        · exact hx1
        · rcases hx q hq with h | ⟨h, -⟩
          · omega
          · rw [← h]; exact hx1

theorem posLe_rebase (hM : 0 < M) {d : ℤ} (hd : 0 ≤ d) {p q : Pdu} (hp : d ≤ rel M b p.sn)
    (hq : d ≤ rel M b q.sn) (h : posLe M b p q) : posLe M ((b + d) % M) p q := by
  unfold posLe at *
  rw [rel_emod_base, rel_emod_base, rel_rebase hM hd hp, rel_rebase hM hd hq]
  rcases h with h | h
  · left; omega
  · right; exact h

/-- The loop frees the PDUs of the SNs at distance less than `d`, all delivered. -/
theorem popDelivered_spec (hM : 0 < M) :
    ∀ (fuel : ℕ) (l : List Pdu) (b n : ℤ), 0 ≤ b → b < M → 0 ≤ n → n < M →
      (∀ p ∈ l, 0 ≤ p.sn ∧ p.sn < M ∧ rel M b p.sn < n) → l.Pairwise (posLe M b) →
      ∃ d, 0 ≤ d ∧ d ≤ n ∧ (popDelivered M fuel l b).2 = (b + d) % M ∧
        (∃ a, l = a ++ (popDelivered M fuel l b).1 ∧ ∀ p ∈ a, rel M b p.sn < d) ∧
        (∀ p ∈ (popDelivered M fuel l b).1, d ≤ rel M b p.sn) ∧
        (∀ s, 0 ≤ s → s < M → sduDelivered l s = false → d ≤ rel M b s) := by
  intro fuel
  induction fuel with
  | zero =>
      intro l b n h0 h1 hn0 _ _ _
      refine ⟨0, le_refl _, hn0, ?_, ⟨[], by simp [popDelivered]⟩, fun p _ => rel_nonneg hM _ _,
        fun s _ _ _ => rel_nonneg hM _ _⟩
      rw [popDelivered, add_zero, Int.emod_eq_of_lt h0 h1]
  | succ fuel ih =>
      intro l b n h0 h1 hn0 hnM hmem hsort
      have hstay : ∀ l', popDelivered M (fuel + 1) l b = (l', b) → l' = l →
          ∃ d, 0 ≤ d ∧ d ≤ n ∧ (popDelivered M (fuel + 1) l b).2 = (b + d) % M ∧
            (∃ a, l = a ++ (popDelivered M (fuel + 1) l b).1 ∧ ∀ p ∈ a, rel M b p.sn < d) ∧
            (∀ p ∈ (popDelivered M (fuel + 1) l b).1, d ≤ rel M b p.sn) ∧
            (∀ s, 0 ≤ s → s < M → sduDelivered l s = false → d ≤ rel M b s) := by
        intro l' he hl
        rw [he, hl]
        refine ⟨0, le_refl _, hn0, ?_, ⟨[], by simp⟩, fun p _ => rel_nonneg hM _ _,
          fun s _ _ _ => rel_nonneg hM _ _⟩
        simp only [add_zero, Int.emod_eq_of_lt h0 h1]
      cases l with
      | nil => exact hstay [] rfl rfl
      | cons p l =>
          by_cases hp : (p.data.isNone && decide (p.sn = b)) = true
          · -- the PDUs of `b` go, and the base moves up by one
            obtain ⟨hpd, hpb⟩ := Bool.and_eq_true_iff.mp hp
            replace hpb : p.sn = b := of_decide_eq_true hpb
            have hn1 : 0 < n := by
              have := (hmem p List.mem_cons_self).2.2
              have := rel_nonneg hM b p.sn
              omega
            obtain ⟨-, hsort'⟩ := List.pairwise_cons.mp hsort
            have hmem' : ∀ q ∈ l, 0 ≤ q.sn ∧ q.sn < M ∧ rel M b q.sn < n :=
              fun q hq => hmem q (List.mem_cons_of_mem _ hq)
            have hstep : popDelivered M (fuel + 1) (p :: l) b =
                popDelivered M fuel (l.dropWhile fun q => q.sn = b) ((b + 1) % M) := by
              simp only [popDelivered, hp, if_true]
            have hgone : ∀ q ∈ p :: l.takeWhile (fun q => q.sn = b), q.sn = b := by
              intro q hq
              rcases List.mem_cons.mp hq with rfl | hq
              · exact hpb
              · simpa using List.mem_takeWhile_imp hq
            have hsplit : p :: l = (p :: l.takeWhile (fun q => q.sn = b)) ++
                l.dropWhile (fun q => q.sn = b) := by
              rw [List.cons_append, List.takeWhile_append_dropWhile]
            generalize htaken : p :: l.takeWhile (fun q => q.sn = b) = taken at hgone hsplit
            have hone := one_le_of_mem_dropWhile hM h0 h1 (fun q hq => ⟨(hmem' q hq).1,
              (hmem' q hq).2.1⟩) hsort'
            have hsub : (l.dropWhile fun q => q.sn = b).Sublist l := List.dropWhile_sublist _
            rw [hstep]
            generalize l.dropWhile (fun q => q.sn = b) = rest at hone hsub hsplit
            have hreb : ∀ s, 1 ≤ rel M b s → rel M ((b + 1) % M) s = rel M b s - 1 := by
              intro s hs
              rw [rel_emod_base, rel_rebase hM (by omega) hs]
            obtain ⟨d, hd0, hdn, hnext, ⟨a, ha, hao⟩, hrest, hund⟩ :=
              ih rest ((b + 1) % M) (n - 1) (Int.emod_nonneg _ (by omega))
                (Int.emod_lt_of_pos _ hM) (by omega) (by omega)
                (fun q hq => by
                  have := hmem' q (hsub.subset hq)
                  rw [hreb _ (hone q hq)]
                  exact ⟨this.1, this.2.1, by omega⟩)
                ((hsort'.sublist hsub).imp_of_mem fun hx hy h =>
                  posLe_rebase hM (by omega) (hone _ hx) (hone _ hy) h)
            refine ⟨d + 1, by omega, by omega, ?_, ⟨taken ++ a, ?_, ?_⟩, ?_, ?_⟩
            · rw [hnext, Int.emod_add_emod]
              congr 1
              ring
            · rw [List.append_assoc, ← ha]
              exact hsplit
            · intro q hq
              rcases List.mem_append.mp hq with hq | hq
              · rw [hgone q hq, rel_self]
                omega
              · have h1q := hone q (by rw [ha]; exact List.mem_append_left _ hq)
                have := hao q hq
                rw [hreb _ h1q] at this
                omega
            · intro q hq
              have h1q := hone q (by rw [ha]; exact List.mem_append_right _ hq)
              have := hrest q hq
              rw [hreb _ h1q] at this
              omega
            · intro s hs0 hs1 hs
              have hsb : s ≠ b := by
                rintro rfl
                rw [sduDelivered_cons_self hpb, hpd] at hs
                cases hs
              rw [hsplit, sduDelivered_append_of_ne (fun q hq => by
                rw [hgone q hq]; exact hsb.symm)] at hs
              have hne : rel M b s ≠ 0 := fun h => hsb ((rel_eq_zero h0 h1 hs0 hs1).mp h)
              have h1s : 1 ≤ rel M b s := by
                have := rel_nonneg hM b s
                omega
              have := hund s hs0 hs1 hs
              rw [hreb _ h1s] at this
              omega
          · exact hstay (p :: l) (by simp only [popDelivered, hp]; rfl) rfl

end Loops

/-! ## The invariant -/

section Invariant

variable {cfg : AmConfig} {rx : AmRx}

/-- The order of the state variables and of `rx_list`. -/
structure AmRx.OrderInv (cfg : AmConfig) (rx : AmRx) : Prop where
  rxNext_range : 0 ≤ rx.rxNext ∧ rx.rxNext < cfg.snModulus
  highestStatus_range : 0 ≤ rx.rxHighestStatus ∧ rx.rxHighestStatus < cfg.snModulus
  nextHighest_range : 0 ≤ rx.rxNextHighest ∧ rx.rxNextHighest < cfg.snModulus
  trigger_range : 0 ≤ rx.rxNextStatusTrigger ∧ rx.rxNextStatusTrigger < cfg.snModulus
  highestStatus_le : rel cfg.snModulus rx.rxNext rx.rxHighestStatus ≤
    rel cfg.snModulus rx.rxNext rx.rxNextHighest
  nextHighest_le : rel cfg.snModulus rx.rxNext rx.rxNextHighest ≤ cfg.windowSize
  mem_range : ∀ p ∈ rx.rxList, 0 ≤ p.sn ∧ p.sn < cfg.snModulus
  mem_lt : ∀ p ∈ rx.rxList, rel cfg.snModulus rx.rxNext p.sn <
    rel cfg.snModulus rx.rxNext rx.rxNextHighest
  sorted : rx.rxList.Pairwise (posLe cfg.snModulus rx.rxNext)

/-- The receive-window invariant. -/
structure AmRx.Inv (cfg : AmConfig) (rx : AmRx) : Prop extends AmRx.OrderInv cfg rx where
  undelivered : sduDelivered rx.rxList rx.rxHighestStatus = false
  trigger : rx.tReassemblyStart ≠ 0 →
    0 < rel cfg.snModulus rx.rxNext rx.rxNextStatusTrigger ∧
    rel cfg.snModulus rx.rxNext rx.rxNextStatusTrigger ≤
      rel cfg.snModulus rx.rxNext rx.rxNextHighest

theorem inv_init : AmRx.Inv cfg {} where
  rxNext_range := ⟨le_refl _, cfg.snModulus_pos⟩
  highestStatus_range := ⟨le_refl _, cfg.snModulus_pos⟩
  nextHighest_range := ⟨le_refl _, cfg.snModulus_pos⟩
  trigger_range := ⟨le_refl _, cfg.snModulus_pos⟩
  highestStatus_le := le_refl _
  nextHighest_le := by
    have := cfg.windowSize_pos
    simp only [rel_self]
    omega
  undelivered := rfl
  mem_range := by simp
  mem_lt := by simp
  sorted := List.Pairwise.nil
  trigger := fun h => absurd rfl h

/-- On residues `modulus_rx` is the distance from `rx_next`. -/
theorem AmRx.OrderInv.modulusRx_eq (h : rx.OrderInv cfg) {a : ℤ} (h0 : 0 ≤ a)
    (h1 : a < cfg.snModulus) : modulusRx cfg rx a = rel cfg.snModulus rx.rxNext a :=
  sub_wrap_eq_rel h.rxNext_range.1 h.rxNext_range.2 h0 h1

theorem emod_range (cfg : AmConfig) (a : ℤ) :
    0 ≤ a % cfg.snModulus ∧ a % cfg.snModulus < cfg.snModulus :=
  ⟨Int.emod_nonneg _ (by have := cfg.snModulus_pos; omega), Int.emod_lt_of_pos _ cfg.snModulus_pos⟩

/-! ### Storing a PDU and raising `rx_next_highest` -/

/-- The new distance of `rx_next_highest` covers `x` and stays in the window. -/
theorem raiseNextHighest_spec {x : ℤ} (hnext : 0 ≤ rx.rxNext ∧ rx.rxNext < cfg.snModulus)
    (hnh : 0 ≤ rx.rxNextHighest ∧ rx.rxNextHighest < cfg.snModulus)
    (hle : rel cfg.snModulus rx.rxNext rx.rxNextHighest ≤ cfg.windowSize)
    (hx0 : 0 ≤ x) (hx : x < cfg.snModulus)
    (hwin : rel cfg.snModulus rx.rxNext x < cfg.windowSize) :
    ∃ n, raiseNextHighest cfg rx x = { rx with rxNextHighest := n } ∧
      (0 ≤ n ∧ n < cfg.snModulus) ∧
      rel cfg.snModulus rx.rxNext rx.rxNextHighest ≤ rel cfg.snModulus rx.rxNext n ∧
      rel cfg.snModulus rx.rxNext n ≤ cfg.windowSize ∧
      rel cfg.snModulus rx.rxNext x < rel cfg.snModulus rx.rxNext n := by
  have hM := cfg.snModulus_eq
  have hW := cfg.windowSize_pos
  have hcmp : snCompareRx cfg rx x rx.rxNextHighest =
      rel cfg.snModulus rx.rxNext x - rel cfg.snModulus rx.rxNext rx.rxNextHighest := by
    unfold snCompareRx modulusRx
    rw [sub_wrap_eq_rel hnext.1 hnext.2 hx0 hx, sub_wrap_eq_rel hnext.1 hnext.2 hnh.1 hnh.2]
  unfold raiseNextHighest
  rw [hcmp]
  split
  · have hs : rel cfg.snModulus rx.rxNext ((x + 1) % cfg.snModulus) =
        rel cfg.snModulus rx.rxNext x + 1 := rel_succ cfg.snModulus_pos (by omega)
    exact ⟨_, rfl, emod_range cfg _, by omega, by omega, by omega⟩
  · exact ⟨rx.rxNextHighest, rfl, hnh, le_refl _, hle, by omega⟩

/-- The PDU reception list with a new PDU of the window. -/
theorem inv_storePdu (h : rx.Inv cfg) {d : DataPdu} (h0 : 0 ≤ d.sn) (h1 : d.sn < cfg.snModulus)
    (hwin : rel cfg.snModulus rx.rxNext d.sn < cfg.windowSize) :
    (raiseNextHighest cfg (storePdu cfg rx d) d.sn).Inv cfg := by
  obtain ⟨n, hn, hrange, hge, hle, hlt⟩ := @raiseNextHighest_spec cfg (storePdu cfg rx d)
    d.sn h.rxNext_range h.nextHighest_range h.nextHighest_le h0 h1 hwin
  rw [hn]
  simp only [storePdu] at hge hlt ⊢
  refine ⟨⟨h.rxNext_range, h.highestStatus_range, hrange, h.trigger_range,
    h.highestStatus_le.trans hge, hle, ?_, ?_, ?_⟩,
    sduDelivered_orderedInsert rfl h.undelivered, ?_⟩
  · intro p hp
    rcases List.mem_orderedInsert _ |>.mp hp with rfl | hp
    · exact ⟨h0, h1⟩
    · exact h.mem_range p hp
  · intro p hp
    rcases List.mem_orderedInsert _ |>.mp hp with rfl | hp
    · exact hlt
    · exact (h.mem_lt p hp).trans_le hge
  · have hcmp : ∀ q ∈ rx.rxList, snCompareRx cfg rx q.sn d.sn =
        rel cfg.snModulus rx.rxNext q.sn - rel cfg.snModulus rx.rxNext d.sn := by
      intro q hq
      unfold snCompareRx
      rw [h.modulusRx_eq (h.mem_range q hq).1 (h.mem_range q hq).2, h.modulusRx_eq h0 h1]
    refine Lists.pairwise_orderedInsert h.sorted posLe_trans ?_ ?_
    · intro q hq hr
      simp only [newPdu] at hr
      rw [hcmp q hq] at hr
      rcases hr with hr | ⟨hr, hso⟩
      · left; simp only [newPdu]; omega
      · right; exact ⟨hr.symm, le_of_lt hso⟩
    · intro q hq hr
      simp only [newPdu] at hr
      rw [hcmp q hq, not_or, not_and] at hr
      by_cases heq : rel cfg.snModulus rx.rxNext q.sn = rel cfg.snModulus rx.rxNext d.sn
      · have hsn := rel_inj (h.mem_range q hq).1 (h.mem_range q hq).2 h0 h1 heq
        right; exact ⟨hsn, not_lt.mp (hr.2 hsn)⟩
      · left; simp only [newPdu]; omega
  · intro ht
    exact ⟨(h.trigger ht).1, (h.trigger ht).2.trans hge⟩

/-! ### Delivery -/

theorem keys_mapRun (x : ℤ) (l : List Pdu) :
    (mapRun x Pdu.freeData l).map (fun p => (p.sn, p.so)) =
      l.map (fun p => (p.sn, p.so)) :=
  map_mapRun x (fun p => (p.sn, p.so)) Pdu.freeData (fun _ => rfl) l

/-- `reassemble_and_deliver` leaves the positions of the PDUs alone. -/
theorem orderInv_reassembleAndDeliver (h : rx.OrderInv cfg) (x : ℤ) :
    (amReassembleAndDeliver rx x).1.OrderInv cfg := by
  have hmem : ∀ p ∈ mapRun x Pdu.freeData rx.rxList,
      (0 ≤ p.sn ∧ p.sn < cfg.snModulus) ∧
      rel cfg.snModulus rx.rxNext p.sn < rel cfg.snModulus rx.rxNext rx.rxNextHighest := by
    intro p hp
    obtain ⟨q, hq, hsn, -⟩ := exists_mem_of_keys (keys_mapRun x rx.rxList) hp
    rw [← hsn]
    exact ⟨h.mem_range q hq, h.mem_lt q hq⟩
  exact ⟨h.rxNext_range, h.highestStatus_range, h.nextHighest_range, h.trigger_range,
    h.highestStatus_le, h.nextHighest_le, fun p hp => (hmem p hp).1, fun p hp => (hmem p hp).2,
    pairwise_posLe_of_keys (keys_mapRun x rx.rxList) h.sorted⟩

theorem undelivered_advanceHighestStatus (h : rx.OrderInv cfg) {x : ℤ}
    (hx : x ≠ rx.rxHighestStatus → sduDelivered rx.rxList rx.rxHighestStatus = false) :
    (advanceHighestStatus cfg rx x).OrderInv cfg ∧
      sduDelivered rx.rxList (advanceHighestStatus cfg rx x).rxHighestStatus = false := by
  unfold advanceHighestStatus
  by_cases hxs : x = rx.rxHighestStatus
  · rw [if_pos hxs]
    have hM := cfg.snModulus_eq
    have hW := cfg.windowSize_pos
    have hnW := h.nextHighest_le
    obtain ⟨h0, h1, -, hle, hund⟩ := skipDelivered_spec (b := rx.rxNext)
      (n := rel cfg.snModulus rx.rxNext rx.rxNextHighest) cfg.snModulus_pos (by omega)
      (fun p hp => ⟨(h.mem_range p hp).1, (h.mem_range p hp).2, h.mem_lt p hp⟩)
      rx.rxList.length rx.rxHighestStatus h.highestStatus_range.1 h.highestStatus_range.2
      h.highestStatus_le List.countP_le_length
    exact ⟨{ h with highestStatus_range := ⟨h0, h1⟩, highestStatus_le := hle }, hund⟩
  · rw [if_neg hxs]
    exact ⟨h, hx hxs⟩

/-- What `advanceRxNext` does: the base moves up by `d`, over delivered SDUs, and takes
the PDUs it passes with it. -/
theorem advanceRxNext_spec (h : rx.OrderInv cfg) (x : ℤ) :
    ∃ d l a, 0 ≤ d ∧ d ≤ rel cfg.snModulus rx.rxNext rx.rxNextHighest ∧
      advanceRxNext cfg rx x =
        { rx with rxList := l, rxNext := (rx.rxNext + d) % cfg.snModulus } ∧
      rx.rxList = a ++ l ∧ (∀ p ∈ a, rel cfg.snModulus rx.rxNext p.sn < d) ∧
      (∀ p ∈ l, d ≤ rel cfg.snModulus rx.rxNext p.sn) ∧
      (∀ s, 0 ≤ s → s < cfg.snModulus → sduDelivered rx.rxList s = false →
        d ≤ rel cfg.snModulus rx.rxNext s) := by
  have hM := cfg.snModulus_pos
  unfold advanceRxNext
  split
  · have hM2 := cfg.snModulus_eq
    have hW := cfg.windowSize_pos
    have hnW := h.nextHighest_le
    obtain ⟨d, hd0, hdn, hnext, ⟨a, ha, hao⟩, hl, hund⟩ :=
      popDelivered_spec hM rx.rxList.length rx.rxList rx.rxNext
        (rel cfg.snModulus rx.rxNext rx.rxNextHighest) h.rxNext_range.1 h.rxNext_range.2
        (rel_nonneg hM _ _) (by omega)
        (fun p hp => ⟨(h.mem_range p hp).1, (h.mem_range p hp).2, h.mem_lt p hp⟩) h.sorted
    exact ⟨d, _, a, hd0, hdn, by rw [hnext], ha, hao, hl, hund⟩
  · refine ⟨0, rx.rxList, [], le_refl _, rel_nonneg hM _ _, ?_, rfl, by simp,
      fun p _ => rel_nonneg hM _ _, fun s _ _ _ => rel_nonneg hM _ _⟩
    rw [add_zero, Int.emod_eq_of_lt h.rxNext_range.1 h.rxNext_range.2]

/-- After `rx_next` has moved, the trigger of a running timer is either still between
`rx_next` and `rx_next_highest` or so far behind that it is out of the window. -/
theorem inv_advanceRxNext (h : rx.OrderInv cfg) (x : ℤ)
    (hund : sduDelivered rx.rxList rx.rxHighestStatus = false)
    (htrig : rx.tReassemblyStart ≠ 0 →
      0 < rel cfg.snModulus rx.rxNext rx.rxNextStatusTrigger ∧
      rel cfg.snModulus rx.rxNext rx.rxNextStatusTrigger ≤
        rel cfg.snModulus rx.rxNext rx.rxNextHighest)
    {rx' : AmRx} (hrx' : advanceRxNext cfg rx x = rx') :
    rx'.OrderInv cfg ∧ sduDelivered rx'.rxList rx'.rxHighestStatus = false ∧
      (rx'.tReassemblyStart ≠ 0 →
        rel cfg.snModulus rx'.rxNext rx'.rxNextStatusTrigger ≤
          rel cfg.snModulus rx'.rxNext rx'.rxNextHighest ∨
        cfg.windowSize < rel cfg.snModulus rx'.rxNext rx'.rxNextStatusTrigger) := by
  obtain ⟨d, l, a, hd0, hdn, heq, hal, hao, hl, hdel⟩ := advanceRxNext_spec h x
  rw [heq] at hrx'
  subst hrx'
  have hM := cfg.snModulus_pos
  have hM2 := cfg.snModulus_eq
  have hdhs := hdel _ h.highestStatus_range.1 h.highestStatus_range.2 hund
  have hreb : ∀ s, d ≤ rel cfg.snModulus rx.rxNext s →
      rel cfg.snModulus ((rx.rxNext + d) % cfg.snModulus) s =
        rel cfg.snModulus rx.rxNext s - d := by
    intro s hs
    rw [rel_emod_base, rel_rebase hM hd0 hs]
  have hsub : l.Sublist rx.rxList := by
    rw [hal]
    exact List.sublist_append_right a l
  refine ⟨⟨emod_range cfg _, h.highestStatus_range, h.nextHighest_range, h.trigger_range,
    ?_, ?_, fun p hp => h.mem_range p (hsub.subset hp), ?_, ?_⟩, ?_, ?_⟩
  · have := h.highestStatus_le
    simp only [hreb _ hdhs, hreb _ hdn]
    omega
  · have := h.nextHighest_le
    simp only [hreb _ hdn]
    omega
  · intro p hp
    have := h.mem_lt p (hsub.subset hp)
    simp only [hreb _ hdn, hreb _ (hl p hp)]
    omega
  · exact (h.sorted.sublist hsub).imp_of_mem fun hp hq hpq =>
      posLe_rebase hM hd0 (hl _ hp) (hl _ hq) hpq
  · have hne : ∀ p ∈ a, p.sn ≠ rx.rxHighestStatus := by
      intro p hp heq
      have := hao p hp
      rw [heq] at this
      omega
    rw [hal, sduDelivered_append_of_ne hne] at hund
    exact hund
  · intro ht
    obtain ⟨h0, hle⟩ := htrig ht
    have hnW := h.nextHighest_le
    by_cases hdt : d ≤ rel cfg.snModulus rx.rxNext rx.rxNextStatusTrigger
    · left
      simp only [hreb _ hdt, hreb _ hdn]
      omega
    · right
      simp only [rel_emod_base]
      rw [rel_rebase_past hM (by omega) (by omega)]
      omega

/-! ### `t_reassembly` -/

theorem inv_stopTReassembly (h : rx.OrderInv cfg)
    (hund : sduDelivered rx.rxList rx.rxHighestStatus = false)
    (htrig : rx.tReassemblyStart ≠ 0 →
      rel cfg.snModulus rx.rxNext rx.rxNextStatusTrigger ≤
        rel cfg.snModulus rx.rxNext rx.rxNextHighest ∨
      cfg.windowSize < rel cfg.snModulus rx.rxNext rx.rxNextStatusTrigger) :
    (stopTReassembly cfg rx).Inv cfg := by
  have hM := cfg.snModulus_pos
  have hM2 := cfg.snModulus_eq
  have hW := cfg.windowSize_pos
  unfold stopTReassembly
  split
  · exact ⟨{ h with }, hund, fun h => absurd rfl h⟩
  · rename_i hns
    refine ⟨h, hund, fun ht => ?_⟩
    rw [not_and] at hns
    obtain ⟨hne, -, hwin⟩ := not_or.mp (hns ht) |>.imp_right not_or.mp
    have h0 := rel_nonneg hM rx.rxNext rx.rxNextStatusTrigger
    have hne0 : rel cfg.snModulus rx.rxNext rx.rxNextStatusTrigger ≠ 0 := fun h0 =>
      hne ((rel_eq_zero h.rxNext_range.1 h.rxNext_range.2 h.trigger_range.1
        h.trigger_range.2).mp h0)
    refine ⟨by omega, ?_⟩
    rcases htrig ht with hle | hgt
    · exact hle
    · -- the trigger is out of the window and not its upper end: the timer was stopped
      exfalso
      apply hwin
      constructor
      · unfold snInRecvWindow
        rw [h.modulusRx_eq h.trigger_range.1 h.trigger_range.2]
        exact decide_eq_false (by omega)
      · intro heq
        rw [heq, rel_emod, rel_eq_sub (by omega) (by omega)] at hgt
        omega

theorem inv_startTReassembly (h : rx.Inv cfg) (tCurrent : ℕ) {sn : ℤ}
    (hle : rel cfg.snModulus rx.rxNext sn ≤ cfg.windowSize) :
    (startTReassembly cfg tCurrent rx sn).Inv cfg := by
  have hM := cfg.snModulus_pos
  have hM2 := cfg.snModulus_eq
  have hW := cfg.windowSize_pos
  unfold startTReassembly
  split
  · rename_i hs
    have hsucc : rel cfg.snModulus rx.rxNext ((sn + 1) % cfg.snModulus) =
        rel cfg.snModulus rx.rxNext sn + 1 := rel_succ hM (by omega)
    have h0 := rel_nonneg hM rx.rxNext sn
    have hpos : 0 < rel cfg.snModulus rx.rxNext rx.rxNextHighest := by
      rcases hs.2 with hc | ⟨hc, -⟩
      · unfold snCompareRx at hc
        rw [h.modulusRx_eq h.nextHighest_range.1 h.nextHighest_range.2,
          h.modulusRx_eq (emod_range cfg _).1 (emod_range cfg _).2] at hc
        omega
      · rw [hc]
        omega
    exact ⟨{ h.toOrderInv with trigger_range := h.nextHighest_range }, h.undelivered,
      fun _ => ⟨hpos, le_refl _⟩⟩
  · exact h

/-! ### The receive functions -/

/-- `reception_actions` once `rx_next_highest` is above the PDU. -/
theorem inv_receptionActions {tCurrent : ℕ} {x : ℤ}
    (h : (raiseNextHighest cfg rx x).Inv cfg) :
    (receptionActions cfg tCurrent rx x).1.Inv cfg := by
  unfold receptionActions
  generalize raiseNextHighest cfg rx x = rx at h
  simp only
  have hM := cfg.snModulus_pos
  have hW := cfg.windowSize_pos
  have fin : ∀ rx' : AmRx, rx'.OrderInv cfg →
      sduDelivered rx'.rxList rx'.rxHighestStatus = false →
      (rx'.tReassemblyStart ≠ 0 →
        rel cfg.snModulus rx'.rxNext rx'.rxNextStatusTrigger ≤
          rel cfg.snModulus rx'.rxNext rx'.rxNextHighest ∨
        cfg.windowSize < rel cfg.snModulus rx'.rxNext rx'.rxNextStatusTrigger) →
      (startTReassembly cfg tCurrent (stopTReassembly cfg rx')
        (stopTReassembly cfg rx').rxNext).Inv cfg := by
    intro rx' h1 h2 h3
    exact inv_startTReassembly (inv_stopTReassembly h1 h2 h3) tCurrent
      (by rw [rel_self]; omega)
  split
  · have h1 := orderInv_reassembleAndDeliver h.toOrderInv x
    have hx : x ≠ rx.rxHighestStatus →
        sduDelivered (amReassembleAndDeliver rx x).1.rxList rx.rxHighestStatus = false := by
      intro hne
      simp only [amReassembleAndDeliver]
      rw [sduDelivered_mapRun_ne (f := Pdu.freeData) (fun _ => rfl) hne.symm]
      exact h.undelivered
    obtain ⟨h2, hund⟩ := undelivered_advanceHighestStatus h1 hx
    have hfields : (advanceHighestStatus cfg (amReassembleAndDeliver rx x).1 x).rxList =
          (amReassembleAndDeliver rx x).1.rxList ∧
        (advanceHighestStatus cfg (amReassembleAndDeliver rx x).1 x).tReassemblyStart =
          rx.tReassemblyStart ∧
        (advanceHighestStatus cfg (amReassembleAndDeliver rx x).1 x).rxNextStatusTrigger =
          rx.rxNextStatusTrigger ∧
        (advanceHighestStatus cfg (amReassembleAndDeliver rx x).1 x).rxNext = rx.rxNext ∧
        (advanceHighestStatus cfg (amReassembleAndDeliver rx x).1 x).rxNextHighest =
          rx.rxNextHighest := by
      unfold advanceHighestStatus
      split <;> exact ⟨rfl, rfl, rfl, rfl, rfl⟩
    obtain ⟨h3, h4, h5⟩ := inv_advanceRxNext h2 x (by rw [hfields.1]; exact hund)
      (by
        rw [hfields.2.1, hfields.2.2.1, hfields.2.2.2.1, hfields.2.2.2.2]
        exact h.trigger) rfl
    exact fin _ h3 h4 h5
  · exact fin _ h.toOrderInv h.undelivered fun ht => Or.inl (h.trigger ht).2

theorem inv_triggerStatus (h : rx.Inv cfg) (p : Bool) : (triggerStatus p rx).Inv cfg := by
  unfold triggerStatus
  split
  · exact ⟨{ h.toOrderInv with }, h.undelivered, h.trigger⟩
  · exact h

end Invariant

/-- What the decoder guarantees of a data PDU. -/
structure DataPdu.WF (cfg : AmConfig) (h : DataPdu) : Prop where
  sn_nonneg : 0 ≤ h.sn
  sn_lt : h.sn < cfg.snModulus
  so_lt : h.so < 2 ^ 16
  so_eq_zero : h.so = 0 ↔ h.isFirst = true
  data_ne : h.data ≠ []

theorem decodeDataFields_wf {cfg : AmConfig} {d : Decoder} {h : DataPdu}
    (hd : decodeDataFields cfg d = some h) : h.WF cfg := by
  unfold decodeDataFields at hd
  simp only [Option.bind_eq_bind, Option.bind_eq_some_iff, Prod.exists] at hd
  obtain ⟨si, d₁, -, r, d₂, -, sn, d₃, hsn, so, d₄, hso, hfin⟩ := hd
  split at hfin
  · cases hfin
  · rename_i hc
    rw [Bool.or_eq_true, not_or] at hc
    injection hfin with hfin
    subst hfin
    have hsnlt := Decoder.getBits_lt hsn
    refine ⟨by simp, ?_, ?_, ?_, by simpa using hc.2⟩
    · show (sn : ℤ) < 2 ^ cfg.snFieldLength
      exact_mod_cast hsnlt
    · show so < 2 ^ 16
      split at hso
      · simp only [Option.some.injEq, Prod.mk.injEq] at hso
        omega
      · exact Decoder.getBits_lt hso
    · show so = 0 ↔ (!si.testBit 1) = true
      cases hsi : si.testBit 1
      · simp [hsi] at hso
        simp [hso.1]
      · simp [hsi] at hc ⊢
        exact hc.1

/-- A data PDU is discarded, with a status triggered or not, or it is stored. -/
theorem recvDataPdu_cases {cfg : AmConfig} {tCurrent : ℕ} {rx rx' : AmRx} {d : Decoder}
    {events : List Event} (h : recvDataPdu cfg tCurrent rx d = (rx', events)) :
    (events = [] ∧ ∃ triggered, rx' = { rx with statusTriggered := triggered }) ∨
      ∃ p d' f, d.getBits 1 = some (p, d') ∧ decodeDataFields cfg d' = some f ∧
        accepted cfg rx f = true ∧
        rx' = triggerStatus (p == 1) (receptionActions cfg tCurrent (storePdu cfg rx f) f.sn).1 ∧
        events = (receptionActions cfg tCurrent (storePdu cfg rx f) f.sn).2 := by
  have htrig : ∀ p, ∃ triggered, triggerStatus p rx = { rx with statusTriggered := triggered } := by
    intro p
    unfold triggerStatus
    split
    · exact ⟨true, rfl⟩
    · exact ⟨rx.statusTriggered, rfl⟩
  unfold recvDataPdu at h
  split at h
  · injection h with h1 h2
    exact .inl ⟨h2.symm, rx.statusTriggered, h1.symm⟩
  · rename_i p d' hp
    split at h
    · injection h with h1 h2
      rw [← h1]
      exact .inl ⟨h2.symm, htrig _⟩
    · rename_i f hf
      split at h
      · rename_i hacc
        injection h with h1 h2
        exact .inr ⟨p, d', f, hp, hf, hacc, h1.symm, h2.symm⟩
      · injection h with h1 h2
        rw [← h1]
        exact .inl ⟨h2.symm, htrig _⟩

/-- A PDU that is accepted has an SN in the receive window. -/
theorem AmRx.Inv.rel_lt_of_accepted {cfg : AmConfig} {rx : AmRx} (h : rx.Inv cfg) {f : DataPdu}
    (hf : f.WF cfg) (hacc : accepted cfg rx f = true) :
    rel cfg.snModulus rx.rxNext f.sn < cfg.windowSize := by
  unfold accepted snInRecvWindow at hacc
  rw [h.modulusRx_eq hf.sn_nonneg hf.sn_lt] at hacc
  simp only [Bool.and_eq_true, decide_eq_true_eq] at hacc
  exact hacc.1.2

/-- **The receive window under a data PDU that is stored.** -/
theorem inv_accepted {cfg : AmConfig} {rx : AmRx} (h : rx.Inv cfg) {f : DataPdu} (hf : f.WF cfg)
    (hacc : accepted cfg rx f = true) (tCurrent : ℕ) (p : Bool) :
    (triggerStatus p (receptionActions cfg tCurrent (storePdu cfg rx f) f.sn).1).Inv cfg :=
  inv_triggerStatus (inv_receptionActions
    (inv_storePdu h hf.sn_nonneg hf.sn_lt (h.rel_lt_of_accepted hf hacc))) p

/-- **The receive window under an expiry of `t_reassembly`.** -/
theorem inv_checkTReassembly {cfg : AmConfig} {rx : AmRx} (h : rx.Inv cfg) (tCurrent : ℕ) :
    (checkTReassembly cfg tCurrent rx).Inv cfg := by
  unfold checkTReassembly
  split
  · rename_i hexp
    have hrun : rx.tReassemblyStart ≠ 0 := by
      intro h0
      simp [timerExpired, h0] at hexp
    have hM2 := cfg.snModulus_eq
    have hW := cfg.windowSize_pos
    have hnW := h.nextHighest_le
    obtain ⟨h0, h1, -, hle, hund⟩ := skipDelivered_spec (b := rx.rxNext)
      (n := rel cfg.snModulus rx.rxNext rx.rxNextHighest) cfg.snModulus_pos (by omega)
      (fun p hp => ⟨(h.mem_range p hp).1, (h.mem_range p hp).2, h.mem_lt p hp⟩)
      rx.rxList.length rx.rxNextStatusTrigger h.trigger_range.1 h.trigger_range.2
      (h.trigger hrun).2 List.countP_le_length
    refine inv_startTReassembly ?_ tCurrent ?_
    · exact ⟨{ h.toOrderInv with highestStatus_range := ⟨h0, h1⟩, highestStatus_le := hle }, hund,
        fun h => absurd rfl h⟩
    · exact hle.trans hnW
  · exact h

end OaiCu.NrRlc
