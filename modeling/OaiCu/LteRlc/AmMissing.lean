import OaiCu.LteRlc.AmStatusPdu
import Mathlib.Data.List.TakeWhile

/-!
# LTE RLC AM: what the NACKs of an SN cover

The bytes of an SN that were not received, the gaps that `generate_status` finds when it goes through
the segments of the SN, and what becomes of a gap that is sent in 15 bits.
-/

namespace OaiCu.LteRlc

/-- The segment has byte `b` of the original PDU. -/
def RxSegment.Covers (s : RxSegment) (b : ℤ) : Prop := (s.so : ℤ) ≤ b ∧ b ≤ s.lastByte

/-- Byte `b` of `sn` was not received: no segment has it, and no segment that ends the PDU ends
before it. -/
structure Missing (list : List RxSegment) (sn b : ℤ) : Prop where
  nonneg : 0 ≤ b
  uncovered : ∀ s ∈ list, s.sn = sn → ¬ s.Covers b
  inPdu : ∀ s ∈ list, s.sn = sn → s.isLast = true → b ≤ s.lastByte

/-- The NACK says that byte `b` is missing; -1 stands for the end of the PDU. -/
def Nack.Covers (nack : Nack) (b : ℤ) : Prop :=
  nack.soStart ≤ b ∧ (nack.soEnd = -1 ∨ b ≤ nack.soEnd)

/-! ## The segments of an SN -/

/-- The segments of `sn` that stand together. -/
def segsOf (list : List RxSegment) (sn : ℤ) : List RxSegment :=
  (fromSn sn list).takeWhile fun x => x.sn = sn

/-- The list behind them. -/
def restOf (list : List RxSegment) (sn : ℤ) : List RxSegment :=
  (fromSn sn list).dropWhile fun x => x.sn = sn

/-- All segments of `sn` stand together, in the order of their offsets. -/
structure Block (list : List RxSegment) (sn : ℤ) (segs rest : List RxSegment) : Prop where
  eq : fromSn sn list = segs ++ rest
  mem_iff : ∀ s, s ∈ segs ↔ s ∈ list ∧ s.sn = sn
  next : ∀ s, rest.head? = some s → s.sn ≠ sn
  sorted : segs.Pairwise fun a b => a.so ≤ b.so
  rest_nil : segs = [] → rest = []

/-- One segment may stand before another one. -/
def SegLe (base : ℤ) (a b : RxSegment) : Prop :=
  Serial.rel 1024 base a.sn < Serial.rel 1024 base b.sn ∨ a.sn = b.sn ∧ a.so ≤ b.so

theorem block {base : ℤ} (sn : ℤ) : ∀ {list : List RxSegment}, list.Pairwise (SegLe base) →
    Block list sn (segsOf list sn) (restOf list sn)
  | [], _ => ⟨rfl, by simp [segsOf, fromSn], nofun, List.Pairwise.nil, fun _ => rfl⟩
  | a :: l, h => by
      obtain ⟨ha, hl⟩ := List.pairwise_cons.mp h
      by_cases hsn : a.sn = sn
      · have hfrom : fromSn sn (a :: l) = a :: l := by
          rw [fromSn, List.dropWhile_cons_of_neg (by simpa using hsn)]
        have hsegs : segsOf (a :: l) sn = a :: l.takeWhile fun x => x.sn = sn := by
          rw [segsOf, hfrom, List.takeWhile_cons_of_pos (by simpa using hsn)]
        have hrest : restOf (a :: l) sn = l.dropWhile fun x => x.sn = sn := by
          rw [restOf, hfrom, List.dropWhile_cons_of_pos (by simpa using hsn)]
        rw [hsegs, hrest]
        refine ⟨?_, ?_, ?_, ?_, nofun⟩
        · rw [List.cons_append, List.takeWhile_append_dropWhile, hfrom]
        · intro s
          constructor
          · intro hs
            rcases List.mem_cons.mp hs with rfl | hs
            · exact ⟨List.mem_cons_self, hsn⟩
            · exact ⟨List.mem_cons_of_mem _ ((List.takeWhile_sublist _).subset hs),
                by simpa using List.mem_takeWhile_imp hs⟩
          · rintro ⟨hs, hssn⟩
            rcases List.mem_cons.mp hs with rfl | hs
            · exact List.mem_cons_self
            rw [← List.takeWhile_append_dropWhile (p := fun x => x.sn = sn) (l := l),
              List.mem_append] at hs
            rcases hs with hs | hs
            · exact List.mem_cons_of_mem _ hs
            -- a segment of `sn` cannot stand behind one of another SN
            exfalso
            cases hd : l.dropWhile (fun x => x.sn = sn) with
            | nil =>
                rw [hd] at hs
                exact List.not_mem_nil hs
            | cons n t =>
                have hn : n.sn ≠ sn := by
                  have := List.head?_dropWhile_not (fun x : RxSegment => x.sn = sn) l
                  rw [hd] at this
                  simpa using this
                have hsub : (n :: t).Sublist l := hd ▸ List.dropWhile_sublist _
                rw [hd] at hs
                have hns : s ∈ t := (List.mem_cons.mp hs).resolve_left fun he => hn (he ▸ hssn)
                have han := ha n (hsub.subset List.mem_cons_self)
                have hns := (List.pairwise_cons.mp (hl.sublist hsub)).1 s hns
                rcases han with han | han
                · rcases hns with hns | hns
                  · have := han.trans hns
                    rw [hsn, hssn] at this
                    exact lt_irrefl _ this
                  · exact hn (hns.1.trans hssn)
                · exact hn (han.1.symm.trans hsn)
        · intro s hs
          have := List.head?_dropWhile_not (fun x : RxSegment => x.sn = sn) l
          rw [hs] at this
          simpa using this
        · have hle : ∀ b ∈ a :: l.takeWhile (fun x => x.sn = sn), b.sn = sn := by
            intro b hb
            rcases List.mem_cons.mp hb with rfl | hb
            · exact hsn
            · simpa using List.mem_takeWhile_imp hb
          refine (h.sublist ((List.takeWhile_sublist _).cons_cons a)).imp_of_mem
            fun {x y} hx hy hxy => ?_
          rcases hxy with hxy | hxy
          · rw [hle x hx, hle y hy] at hxy
            exact absurd hxy (lt_irrefl _)
          · exact hxy.2
      · have hb := block sn hl
        have hfrom : fromSn sn (a :: l) = fromSn sn l := by
          rw [fromSn, List.dropWhile_cons_of_pos (by simpa using hsn), fromSn]
        rw [segsOf, restOf, hfrom, ← segsOf, ← restOf]
        refine ⟨hfrom.trans hb.eq, fun s => ?_, hb.next, hb.sorted, hb.rest_nil⟩
        · rw [hb.mem_iff, List.mem_cons]
          refine ⟨fun hs => ⟨Or.inr hs.1, hs.2⟩, fun hs => ⟨hs.1.resolve_left fun he => ?_, hs.2⟩⟩
          exact hsn (he ▸ hs.2)

/-! ## Gaps -/

/-- The last byte received after one more segment. -/
def nextByte (lastByte : ℤ) (s : RxSegment) : ℤ :=
  if s.lastByte > lastByte then s.lastByte else lastByte

/-- The missing parts in front of the segments, and `e` as the end of what is missing behind them. -/
def gaps (e : ℤ) : ℤ → List RxSegment → List (ℤ × ℤ)
  | lastByte, [] => [(lastByte + 1, e)]
  | lastByte, s :: segs =>
      (if (s.so : ℤ) > lastByte + 1 then [(lastByte + 1, (s.so : ℤ) - 1)] else []) ++
        if s.isLast then [] else gaps e (nextByte lastByte s) segs

/-- `so_end` of the last NACK: from the segment on which the search stopped. -/
def soEndBehind (rest : List RxSegment) : ℤ :=
  match rest with
  | [] => 0x7fff
  | n :: _ => (n.so : ℤ) - 1

section Block

variable {list segs rest : List RxSegment} {sn e : ℤ}

theorem countMissingFrom_eq (e : ℤ) : ∀ {segs : List RxSegment} (lastByte : ℤ) (count : ℕ),
    (∀ s ∈ segs, s.sn = sn) → (∀ s, rest.head? = some s → s.sn ≠ sn) →
    countMissingFrom sn lastByte count (segs ++ rest) = count + (gaps e lastByte segs).length
  | [], lastByte, count, _, hrest => by
      cases rest with
      | nil => rfl
      | cons n t =>
          rw [List.nil_append, countMissingFrom, if_neg (hrest n rfl)]
          rfl
  | s :: segs, lastByte, count, hsegs, hrest => by
      obtain ⟨hs, hsegs⟩ := List.forall_mem_cons.mp hsegs
      rw [List.cons_append, countMissingFrom, if_pos hs, gaps, List.length_append]
      by_cases hgap : (s.so : ℤ) > lastByte + 1
      · rw [if_pos hgap, if_pos hgap]
        cases s.isLast with
        | true => simp
        | false =>
            have ih := countMissingFrom_eq e (nextByte lastByte s) (count + 1) hsegs hrest
            simp only [Bool.false_eq_true, if_false, List.length_singleton]
            rw [← nextByte, ih]
            omega
      · rw [if_neg hgap, if_neg hgap]
        cases s.isLast with
        | true => simp
        | false =>
            have ih := countMissingFrom_eq e (nextByte lastByte s) count hsegs hrest
            simp only [Bool.false_eq_true, if_false, List.length_nil]
            rw [← nextByte, ih]
            omega

/-- A segment has at least one byte. -/
def Nonempty (segs : List RxSegment) : Prop := ∀ s ∈ segs, (s.so : ℤ) ≤ s.lastByte

theorem missingParts_skip {l : RxSegment} {lastByte : ℤ} (hl : l.sn = sn)
    (h : ¬ (l.so : ℤ) > lastByte + 1) (count : ℕ) (next : List RxSegment) :
    missingParts sn count lastByte (l :: next) = missingParts sn count (nextByte lastByte l) next := by
  cases count with
  | zero => rfl
  | succ count => rw [missingParts, missingParts, nextGap, if_pos ⟨hl, h⟩, ← nextByte]

/-- The search finds the gaps, and takes the end of the last one from where it stopped. -/
theorem missingParts_eq : ∀ {segs : List RxSegment} (lastByte : ℤ), Nonempty segs →
    (∀ s ∈ segs, s.sn = sn) → (∀ s, rest.head? = some s → s.sn ≠ sn) →
    missingParts sn (gaps (soEndBehind rest) lastByte segs).length lastByte (segs ++ rest) =
      gaps (soEndBehind rest) lastByte segs
  | [], lastByte, _, _, hrest => by
      cases rest with
      | nil => rfl
      | cons n t =>
          have hn := hrest n rfl
          rw [List.nil_append, gaps, List.length_singleton, missingParts, nextGap,
            if_neg fun h => hn h.1]
          rfl
  | s :: segs, lastByte, hne, hsegs, hrest => by
      obtain ⟨hs, hsegs⟩ := List.forall_mem_cons.mp hsegs
      obtain ⟨hle, hne⟩ := List.forall_mem_cons.mp hne
      have ih := fun lastByte => missingParts_eq lastByte hne hsegs hrest
      rw [List.cons_append, gaps]
      by_cases hgap : (s.so : ℤ) > lastByte + 1
      · rw [if_pos hgap, List.singleton_append, List.length_cons, missingParts, nextGap,
          if_neg fun h => h.2 hgap]
        dsimp only
        congr 1
        have hnext : nextByte lastByte s = s.lastByte := if_pos (by omega)
        have hself : nextByte s.lastByte s = s.lastByte := if_neg (lt_irrefl _)
        cases s.isLast with
        | true => rfl
        | false =>
            simp only [Bool.false_eq_true, if_false]
            rw [missingParts_skip hs (by omega), hself, hnext]
            exact ih s.lastByte
      · rw [if_neg hgap, List.nil_append]
        cases s.isLast with
        | true => rfl
        | false =>
            simp only [Bool.false_eq_true, if_false]
            rw [missingParts_skip hs hgap]
            exact ih (nextByte lastByte s)

/-- The NACKs of an SN of which something was received. -/
theorem nackFields_eq (h : Block list sn segs rest) (hne : Nonempty segs) (hsegs : segs ≠ [])
    (hgaps : gaps (soEndBehind rest) (-1) segs ≠ []) :
    nackFields list sn = (gaps (soEndBehind rest) (-1) segs).map fun part =>
      { sn, sos := some part } := by
  have hsn : ∀ s ∈ segs, s.sn = sn := fun s hs => ((h.mem_iff s).mp hs).2
  have hcount : countNackMissingParts list sn = (gaps (soEndBehind rest) (-1) segs).length := by
    have hfrom := countMissingFrom_eq (soEndBehind rest) (-1) 0 hsn h.next
    rw [Nat.zero_add] at hfrom
    rw [countNackMissingParts, h.eq]
    cases segs with
    | nil => exact absurd rfl hsegs
    | cons s segs => exact hfrom
  rw [nackFields, hcount, if_neg (by simpa using hgaps), h.eq, missingParts_eq (-1) hne hsn h.next]

theorem nackFields_nothing (h : Block list sn [] rest) :
    nackFields list sn = [{ sn, sos := none }] := by
  have hfrom : fromSn sn list = [] := by rw [h.eq, h.rest_nil rfl, List.append_nil]
  rw [nackFields, countNackMissingParts, hfrom]
  rfl

/-- `rlc_am_segment_full` tells whether there is no gap. -/
theorem fullFrom_iff (e : ℤ) : ∀ {segs : List RxSegment} (lastByte : ℤ),
    (∀ s ∈ segs, s.sn = sn) → (∀ s, rest.head? = some s → s.sn ≠ sn) →
    (fullFrom sn lastByte (segs ++ rest) = true ↔ gaps e lastByte segs = [])
  | [], lastByte, _, hrest => by
      refine iff_of_false ?_ (List.cons_ne_nil _ _)
      cases rest with
      | nil => exact Bool.false_ne_true
      | cons n t =>
          rw [List.nil_append, fullFrom, if_neg (hrest n rfl)]
          exact Bool.false_ne_true
  | s :: segs, lastByte, hsegs, hrest => by
      obtain ⟨hs, hsegs⟩ := List.forall_mem_cons.mp hsegs
      rw [List.cons_append, fullFrom, if_pos hs, gaps]
      by_cases hgap : (s.so : ℤ) > lastByte + 1
      · rw [if_pos hgap, if_pos hgap]
        simp
      · rw [if_neg hgap, if_neg hgap, List.nil_append]
        cases s.isLast with
        | true => simp
        | false =>
            simp only [Bool.false_eq_true, if_false]
            rw [← nextByte]
            exact fullFrom_iff e (nextByte lastByte s) hsegs hrest

theorem segmentFull_iff_gaps (h : Block list sn segs rest) (e : ℤ) :
    segmentFull list sn = true ↔ gaps e (-1) segs = [] := by
  rw [segmentFull, h.eq]
  exact fullFrom_iff e (-1) (fun s hs => ((h.mem_iff s).mp hs).2) h.next

/-! ## The gaps are what is missing -/

/-- The last byte received of the segments. -/
def receivedEnd (lastByte : ℤ) (segs : List RxSegment) : ℤ := segs.foldl nextByte lastByte

theorem le_nextByte (lastByte : ℤ) (s : RxSegment) :
    lastByte ≤ nextByte lastByte s ∧ s.lastByte ≤ nextByte lastByte s := by
  rw [nextByte]
  split <;> omega

theorem le_receivedEnd : ∀ (segs : List RxSegment) (lastByte : ℤ),
    lastByte ≤ receivedEnd lastByte segs ∧ ∀ s ∈ segs, s.lastByte ≤ receivedEnd lastByte segs
  | [], lastByte => ⟨le_rfl, nofun⟩
  | s :: segs, lastByte => by
      obtain ⟨hle, hall⟩ := le_receivedEnd segs (nextByte lastByte s)
      have := le_nextByte lastByte s
      exact ⟨this.1.trans hle, List.forall_mem_cons.mpr ⟨this.2.trans hle, hall⟩⟩

/-- What is missing is in a gap, or behind all that was received of a PDU without an end. -/
theorem mem_gaps_of_missing (e : ℤ) {b : ℤ} : ∀ {segs : List RxSegment} {lastByte : ℤ},
    lastByte < b → (∀ s ∈ segs, ¬ s.Covers b) →
    (∀ s ∈ segs, s.isLast = true → b ≤ s.lastByte) →
    (∃ x, ∃ s ∈ segs, (x, (s.so : ℤ) - 1) ∈ gaps e lastByte segs ∧ lastByte < x ∧ x ≤ b ∧
      b < s.so) ∨
    ((∀ s ∈ segs, s.isLast = false) ∧ receivedEnd lastByte segs < b ∧
      (receivedEnd lastByte segs + 1, e) ∈ gaps e lastByte segs)
  | [], lastByte, hb, _, _ => Or.inr ⟨nofun, hb, List.mem_singleton_self _⟩
  | s :: segs, lastByte, hb, hcov, hlast => by
      obtain ⟨hs, hcov⟩ := List.forall_mem_cons.mp hcov
      obtain ⟨hsl, hlast⟩ := List.forall_mem_cons.mp hlast
      rw [gaps]
      by_cases hso : b < s.so
      · refine Or.inl ⟨lastByte + 1, s, List.mem_cons_self, List.mem_append_left _ ?_, by omega,
          by omega, hso⟩
        rw [if_pos (by omega)]
        exact List.mem_singleton_self _
      · have hbehind : s.lastByte < b := by
          by_contra hle
          exact hs ⟨by omega, by omega⟩
        have hnot : s.isLast = false := by
          cases hl : s.isLast with
          | false => rfl
          | true =>
              have := hsl hl
              omega
        have hnext : nextByte lastByte s < b := by
          rw [nextByte]
          split <;> omega
        have hle := (le_nextByte lastByte s).1
        simp only [hnot, Bool.false_eq_true, if_false]
        rcases mem_gaps_of_missing e hnext hcov hlast with ⟨x, t, ht, hmem, hx, hxb, hbt⟩ | ⟨hnl, hlt, hmem⟩
        · exact Or.inl ⟨x, t, List.mem_cons_of_mem _ ht, List.mem_append_right _ hmem, by omega,
            hxb, hbt⟩
        · exact Or.inr ⟨List.forall_mem_cons.mpr ⟨hnot, hnl⟩, hlt, List.mem_append_right _ hmem⟩

/-- Every gap stands before a segment, or behind all of them. -/
theorem of_mem_gaps {part : ℤ × ℤ} : ∀ {segs : List RxSegment} {lastByte : ℤ},
    part ∈ gaps e lastByte segs →
    (∃ s ∈ segs, lastByte < part.1 ∧ part.1 < s.so ∧ part.2 = (s.so : ℤ) - 1) ∨
      part = (receivedEnd lastByte segs + 1, e)
  | [], lastByte, h => Or.inr (List.mem_singleton.mp h)
  | s :: segs, lastByte, h => by
      rw [gaps, List.mem_append] at h
      rcases h with h | h
      · split at h
        · rw [List.mem_singleton.mp h]
          exact Or.inl ⟨s, List.mem_cons_self, Int.lt_succ _, by assumption, rfl⟩
        · exact absurd h List.not_mem_nil
      · split at h
        · exact absurd h List.not_mem_nil
        · rcases of_mem_gaps h with ⟨t, ht, hlt, heq⟩ | heq
          · have := (le_nextByte lastByte s).1
            exact Or.inl ⟨t, List.mem_cons_of_mem _ ht, by omega, heq⟩
          · exact Or.inr heq

/-- Where there is a gap a byte is missing. -/
theorem exists_missing_of_gaps (e : ℤ) : ∀ {segs : List RxSegment} {lastByte : ℤ}, Nonempty segs →
    segs.Pairwise (fun a b => a.so ≤ b.so) → gaps e lastByte segs ≠ [] →
    ∃ b, lastByte < b ∧ (∀ s ∈ segs, ¬ s.Covers b) ∧ ∀ s ∈ segs, s.isLast = true → b ≤ s.lastByte
  | [], lastByte, _, _, _ => ⟨lastByte + 1, by omega, nofun, nofun⟩
  | s :: segs, lastByte, hne, hsorted, hgaps => by
      obtain ⟨hle, hne'⟩ := List.forall_mem_cons.mp hne
      obtain ⟨hs, hsorted⟩ := List.pairwise_cons.mp hsorted
      by_cases hgap : (s.so : ℤ) > lastByte + 1
      · have hall : ∀ t ∈ s :: segs, s.so ≤ t.so := List.forall_mem_cons.mpr ⟨le_rfl, hs⟩
        refine ⟨lastByte + 1, by omega, fun t ht hcov => ?_, fun t ht _ => ?_⟩
        · have := hall t ht
          have := hcov.1
          omega
        · have := hall t ht
          have := hne t ht
          omega
      · rw [gaps, if_neg hgap, List.nil_append] at hgaps
        cases hl : s.isLast with
        | true =>
            rw [hl] at hgaps
            exact absurd rfl hgaps
        | false =>
            rw [hl] at hgaps
            obtain ⟨b, hb, hcov, hlast⟩ := exists_missing_of_gaps e hne' hsorted hgaps
            have := le_nextByte lastByte s
            refine ⟨b, by omega, List.forall_mem_cons.mpr ⟨fun hc => ?_, hcov⟩,
              List.forall_mem_cons.mpr ⟨fun ht => ?_, hlast⟩⟩
            · have := hc.2
              omega
            · rw [hl] at ht
              cases ht

theorem missing_iff (h : Block list sn segs rest) (b : ℤ) : Missing list sn b ↔
    0 ≤ b ∧ (∀ s ∈ segs, ¬ s.Covers b) ∧ ∀ s ∈ segs, s.isLast = true → b ≤ s.lastByte := by
  constructor
  · exact fun hm => ⟨hm.nonneg, fun s hs => hm.uncovered s ((h.mem_iff s).mp hs).1
      ((h.mem_iff s).mp hs).2, fun s hs => hm.inPdu s ((h.mem_iff s).mp hs).1
      ((h.mem_iff s).mp hs).2⟩
  · exact fun hm => ⟨hm.1, fun s hs hsn => hm.2.1 s ((h.mem_iff s).mpr ⟨hs, hsn⟩),
      fun s hs hsn => hm.2.2 s ((h.mem_iff s).mpr ⟨hs, hsn⟩)⟩

/-- **An SN is full exactly if no byte of it is missing.** -/
theorem segmentFull_iff (h : Block list sn segs rest) (hne : Nonempty segs) :
    segmentFull list sn = true ↔ ∀ b, ¬ Missing list sn b := by
  rw [segmentFull_iff_gaps h 0]
  constructor
  · intro hgaps b hb
    obtain ⟨h0, hcov, hlast⟩ := (missing_iff h b).mp hb
    rcases mem_gaps_of_missing 0 (show (-1 : ℤ) < b by omega) hcov hlast with
      ⟨x, s, hs, hmem, -⟩ | ⟨-, -, hmem⟩
    · rw [hgaps] at hmem
      exact List.not_mem_nil hmem
    · rw [hgaps] at hmem
      exact List.not_mem_nil hmem
  · intro hall
    by_contra hgaps
    obtain ⟨b, hb, hcov, hlast⟩ := exists_missing_of_gaps 0 hne h.sorted hgaps
    exact hall b ((missing_iff h b).mpr ⟨by omega, hcov, hlast⟩)

end Block

/-! ## What the NACKs cover -/

/-- The last NACK of `sn` is cut off: the end of the PDU was not received, and the search stopped on
a segment of another SN whose offset is beyond what is sent as the start. -/
def Short (list : List RxSegment) (sn : ℤ) : Prop :=
  segsOf list sn ≠ [] ∧ (∀ s ∈ segsOf list sn, s.isLast = false) ∧
    ∃ n ∈ (restOf list sn).head?, (receivedEnd (-1) (segsOf list sn) + 1) % 2 ^ 15 < n.so

instance (list : List RxSegment) (sn : ℤ) : Decidable (Short list sn) := by
  unfold Short
  infer_instance

theorem toNack_sn (f : NackField) : f.toNack.sn = (f.sn % 2 ^ 10).toNat := by
  rw [NackField.toNack]
  split <;> rfl

theorem sn_of_mem_nackFields {list : List RxSegment} {sn : ℤ} {f : NackField}
    (h : f ∈ nackFields list sn) : f.sn = sn := by
  rw [nackFields] at h
  split at h
  · rw [List.mem_singleton.mp h]
  · obtain ⟨part, -, rfl⟩ := List.mem_map.mp h
    rfl

/-- A part that is sent without loss. -/
theorem toNack_covers {sn x y b : ℤ} (hx : 0 ≤ x) (hxy : x ≤ y) (hy : y < 0x7fff) :
    ({ sn, sos := some (x, y) } : NackField).toNack.Covers b ↔ x ≤ b ∧ b ≤ y := by
  have hx' : x % 2 ^ 15 = x := Int.emod_eq_of_lt hx (by omega)
  have hy' : y % 2 ^ 15 = y := Int.emod_eq_of_lt (by omega) (by omega)
  simp only [NackField.toNack, Nack.Covers, correctedSos, hx', hy']
  rw [if_neg (by omega)]
  dsimp only
  rw [if_neg (by omega)]
  omega

/-- A part up to the end of the PDU, which may be sent as -1. -/
theorem toNack_covers_end {sn x y b : ℤ} (hx : 0 ≤ x) (hxb : x ≤ b) (hy : y % 2 ^ 15 = 0x7fff) :
    ({ sn, sos := some (x, y) } : NackField).toNack.Covers b := by
  have hx' : x % 2 ^ 15 ≤ x := by omega
  have hlt : x % 2 ^ 15 < 2 ^ 15 := Int.emod_lt_of_pos x (by decide)
  have hnn : 0 ≤ x % 2 ^ 15 := Int.emod_nonneg x (by decide)
  simp only [NackField.toNack, Nack.Covers, correctedSos, hy]
  rw [if_neg (by omega)]
  dsimp only
  rw [if_pos (by decide)]
  omega

/-- A part that ends before the start that is sent is taken for the whole PDU. -/
theorem toNack_covers_wrong {sn x y b : ℤ} (hb : 0 ≤ b) (h : y % 2 ^ 15 < x % 2 ^ 15) :
    ({ sn, sos := some (x, y) } : NackField).toNack.Covers b := by
  have hnn : 0 ≤ y % 2 ^ 15 := Int.emod_nonneg y (by decide)
  simp only [NackField.toNack, Nack.Covers, correctedSos]
  rw [if_pos (by omega)]
  dsimp only
  omega

/-- A part that ends at `y` covers nothing behind. -/
theorem not_toNack_covers {sn x y b : ℤ} (h0 : 0 ≤ y) (hy : y < 0x7fff) (hxy : x % 2 ^ 15 ≤ y)
    (hb : y < b) : ¬ ({ sn, sos := some (x, y) } : NackField).toNack.Covers b := by
  have hy' : y % 2 ^ 15 = y := Int.emod_eq_of_lt h0 (by omega)
  have hnn : 0 ≤ x % 2 ^ 15 := Int.emod_nonneg x (by decide)
  simp only [NackField.toNack, Nack.Covers, correctedSos, hy']
  rw [if_neg (by omega)]
  dsimp only
  rw [if_neg (by omega)]
  omega

section Covers

variable {list : List RxSegment} {sn : ℤ}

/-- What is known of the segments in the list. -/
def Sound (list : List RxSegment) : Prop :=
  ∀ s ∈ list, s.so < 2 ^ 15 ∧ (s.so : ℤ) ≤ s.lastByte

theorem nacks_cover (hsound : Sound list)
    (h : Block list sn (segsOf list sn) (restOf list sn)) (hshort : ¬ Short list sn) {b : ℤ}
    (hb : Missing list sn b) : ∃ f ∈ nackFields list sn, f.toNack.Covers b := by
  have hmem : ∀ s ∈ segsOf list sn, s ∈ list := fun s hs => ((h.mem_iff s).mp hs).1
  have hne : Nonempty (segsOf list sn) := fun s hs => (hsound s (hmem s hs)).2
  obtain ⟨h0, hcov, hlast⟩ := (missing_iff h b).mp hb
  by_cases hsegs : segsOf list sn = []
  · rw [nackFields_nothing (hsegs ▸ h)]
    exact ⟨_, List.mem_singleton_self _, h0, Or.inl rfl⟩
  have hgap := mem_gaps_of_missing (soEndBehind (restOf list sn)) (show (-1 : ℤ) < b by omega)
    hcov hlast
  have hgaps : gaps (soEndBehind (restOf list sn)) (-1) (segsOf list sn) ≠ [] := by
    rcases hgap with ⟨x, s, hs, hin, -⟩ | ⟨-, -, hin⟩
    · exact List.ne_nil_of_mem hin
    · exact List.ne_nil_of_mem hin
  rw [nackFields_eq h hne hsegs hgaps]
  rcases hgap with ⟨x, s, hs, hin, hx, hxb, hbs⟩ | ⟨hnl, hlt, hin⟩
  · refine ⟨_, List.mem_map_of_mem hin, (toNack_covers (by omega) (by omega) ?_).mpr
      ⟨hxb, by omega⟩⟩
    have := (hsound s (hmem s hs)).1
    omega
  · refine ⟨_, List.mem_map_of_mem hin, ?_⟩
    have hend := (le_receivedEnd (segsOf list sn) (-1)).1
    cases hrest : restOf list sn with
    | nil => exact toNack_covers_end (by omega) (by omega) (by decide)
    | cons n t =>
        rw [soEndBehind]
        by_cases hso : n.so = 0
        · exact toNack_covers_end (by omega) (by omega) (by rw [hso]; decide)
        · have hle : ¬ (receivedEnd (-1) (segsOf list sn) + 1) % 2 ^ 15 < n.so := fun hlt =>
            hshort ⟨hsegs, hnl, n, by rw [hrest]; rfl, hlt⟩
          have hn : n ∈ list := by
            have hfrom : n ∈ fromSn sn list := by
              rw [h.eq, hrest]
              exact List.mem_append_right _ List.mem_cons_self
            exact (List.dropWhile_sublist _).subset hfrom
          have hlt15 := (hsound n hn).1
          refine toNack_covers_wrong h0 ?_
          rw [Int.emod_eq_of_lt (a := (n.so : ℤ) - 1) (by omega) (by omega)]
          omega

/-- Of an SN whose last NACK is cut off a byte is missing that no NACK covers. -/
theorem nacks_short (hsound : Sound list)
    (h : Block list sn (segsOf list sn) (restOf list sn)) (hshort : Short list sn) :
    ∃ b, Missing list sn b ∧ ∀ f ∈ nackFields list sn, ¬ f.toNack.Covers b := by
  obtain ⟨hsegs, hnl, n, hn, hlt⟩ := hshort
  have hmem : ∀ s ∈ segsOf list sn, s ∈ list := fun s hs => ((h.mem_iff s).mp hs).1
  have hne : Nonempty (segsOf list sn) := fun s hs => (hsound s (hmem s hs)).2
  obtain ⟨hend, hall⟩ := le_receivedEnd (segsOf list sn) (-1)
  obtain ⟨t, hrest⟩ : ∃ t, restOf list sn = n :: t := by
    cases hr : restOf list sn with
    | nil =>
        rw [hr] at hn
        cases hn
    | cons m t =>
        rw [hr] at hn
        obtain rfl : m = n := Option.some.inj hn
        exact ⟨t, rfl⟩
  have hnlist : n ∈ list := by
    have hfrom : n ∈ fromSn sn list := by
      rw [h.eq, hrest]
      exact List.mem_append_right _ List.mem_cons_self
    exact (List.dropWhile_sublist _).subset hfrom
  have hn15 := (hsound n hnlist).1
  have hmod0 : 0 ≤ (receivedEnd (-1) (segsOf list sn) + 1) % 2 ^ 15 :=
    Int.emod_nonneg _ (by decide)
  obtain ⟨b, hbn, hbend⟩ : ∃ b : ℤ, (n.so : ℤ) ≤ b ∧ receivedEnd (-1) (segsOf list sn) < b :=
    ⟨max n.so (receivedEnd (-1) (segsOf list sn) + 1), le_max_left _ _,
      Int.lt_of_add_one_le (le_max_right _ _)⟩
  have hmissing : Missing list sn b := by
    refine (missing_iff h b).mpr ⟨by omega, fun s hs hc => ?_, fun s hs hl => ?_⟩
    · have := hall s hs
      have := hc.2
      omega
    · rw [hnl s hs] at hl
      cases hl
  have hgaps : gaps (soEndBehind (restOf list sn)) (-1) (segsOf list sn) ≠ [] := by
    intro hnil
    have hfull := (segmentFull_iff_gaps h _).mpr hnil
    exact (segmentFull_iff h hne).mp hfull b hmissing
  refine ⟨b, hmissing, fun f hf => ?_⟩
  rw [nackFields_eq h hne hsegs hgaps] at hf
  obtain ⟨⟨x, y⟩, hpart, rfl⟩ := List.mem_map.mp hf
  rcases of_mem_gaps hpart with ⟨s, hs, hx, hxs, hy⟩ | heq
  · dsimp only at hx hxs hy
    have hslist := hsound s (hmem s hs)
    have hle := hall s hs
    rw [toNack_covers (by omega) (by omega) (by omega)]
    omega
  · obtain ⟨rfl, rfl⟩ := Prod.mk.inj heq
    rw [hrest, soEndBehind]
    exact not_toNack_covers (by omega) (by omega) (by omega) (by omega)

end Covers

end OaiCu.LteRlc
