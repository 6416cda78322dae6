import OaiCu.OduRlc.UmUlWindow

/-!
# The SDUs of the UM uplink

An SDU is joined from the segments of one record, and a record only takes segments of one cycle
of the SNs as long as the window is right.
-/

namespace OaiCu.OduRlc

variable {snLen : UmSnLen} {α : Type*} {P : α → Prop}

/-- The segments of a record: a first segment is at the start of the list, and `P` holds of what
they carry. -/
structure SegsOk (P : α → Prop) (segLst : List (StoredSeg α)) : Prop where
  tail : ∀ seg ∈ segLst.tail, seg.si ≠ .first
  so : ∀ seg ∈ segLst, seg.si = .first → seg.so = 0
  of : ∀ seg ∈ segLst, P seg.seg

theorem segsOk_nil : SegsOk P [] := ⟨nofun, nofun, nofun⟩

theorem SegsOk.imp {Q : α → Prop} {segLst : List (StoredSeg α)} (h : SegsOk P segLst)
    (hPQ : ∀ a, P a → Q a) : SegsOk Q segLst :=
  ⟨h.tail, h.so, fun seg hm => hPQ _ (h.of seg hm)⟩

namespace SegStore

variable {recBuf : SegStore α} {seg : RcvdSeg α}

theorem updExpByteSeg_segLst (seg : StoredSeg α) (next : List (StoredSeg α))
    (recBuf : SegStore α) : (recBuf.updExpByteSeg seg next).segLst = recBuf.segLst := by
  rw [updExpByteSeg]
  split
  · rfl
  · split <;> rfl

theorem scanSegs_lstRcvd {segs : List (StoredSeg α)} {e : ℕ} {l : Bool}
    (h : (scanSegs segs e l).2.1 = true) : l = true ∨ ∃ seg ∈ segs, seg.si = .last := by
  induction segs generalizing e l with
  | nil => exact .inl h
  | cons seg segs ih =>
      have hl : (l || decide (seg.si = .last)) = true →
          l = true ∨ ∃ seg' ∈ seg :: segs, seg'.si = .last := fun hl => by
        rw [Bool.or_eq_true, decide_eq_true_eq] at hl
        exact hl.imp_right fun hl => ⟨seg, List.mem_cons_self, hl⟩
      rw [scanSegs] at h
      split at h
      · rcases ih h with hl' | ⟨seg', hm, hl'⟩
        · exact hl hl'
        · exact .inr ⟨seg', List.mem_cons_of_mem _ hm, hl'⟩
      · exact hl h

/-- A segment that is taken goes between those before and those behind it. -/
theorem addRcvdSeg_taken (h : (recBuf.addRcvdSeg seg).1 = true) :
    recBuf.allRcvd = false ∧ (recBuf.next seg.so).head?.any (·.so ≤ seg.stored.soEnd) = false ∧
      (recBuf.addRcvdSeg seg).2.segLst = recBuf.inserted seg ∧
      ((recBuf.addRcvdSeg seg).2.allRcvd = true →
        ∃ seg' ∈ recBuf.inserted seg, seg'.si = .last) := by
  revert h
  rw [addRcvdSeg]
  split_ifs with h1 h2 h3
  · simp
  · simp
  · simp
  · refine fun _ => ⟨by simpa using h1, by simpa using h3, updExpByteSeg_segLst _ _ _, ?_⟩
    simp only [updExpByteSeg]
    split
    · exact fun hc => absurd hc h1
    · split
      · exact fun hc => absurd hc h1
      · rename_i expSo lstRcvd hscan
        intro hall
        rw [Bool.or_eq_true] at hall
        have hl := hall.resolve_left h1
        have hscan' := @scanSegs_lstRcvd α (recBuf.next seg.so) ((seg.stored.soEnd + 1) % 2 ^ 16)
          (decide (seg.stored.si = .last)) (by rw [hscan]; exact hl)
        rcases hscan' with hlast | ⟨seg', hm, hlast⟩
        · exact ⟨seg.stored, mem_inserted.2 (.inl rfl), by simpa using hlast⟩
        · exact ⟨seg', mem_inserted.2 (.inr ((List.dropWhile_sublist _).subset hm)), hlast⟩

end SegStore

theorem SegsOk.inserted {recBuf : SegStore α} {seg : RcvdSeg α} (h : SegsOk P recBuf.segLst)
    (hso : seg.si = .first → seg.so = 0) (hP : P seg.pdu)
    (hnext : (recBuf.next seg.so).head?.any (·.so ≤ seg.stored.soEnd) = false) :
    SegsOk P (recBuf.inserted seg) := by
  refine ⟨fun seg' hm => ?_, fun seg' hm => ?_, fun seg' hm => ?_⟩
  · have happ := SegStore.passed_append_next seg.so recBuf
    rw [SegStore.inserted] at hm
    cases hp : recBuf.passed seg.so with
    | nil =>
        rw [hp, List.nil_append] at happ hm
        rw [List.tail_cons, happ] at hm
        cases hl : recBuf.segLst with
        | nil => simp [hl] at hm
        | cons seg'' segs =>
            rw [hl, List.mem_cons] at hm
            rcases hm with rfl | hm
            · intro hfirst
              have h0 := h.so seg' (by simp [hl]) hfirst
              rw [happ, hl] at hnext
              simp [h0] at hnext
            · exact h.tail seg' (by rw [hl]; exact hm)
    | cons seg'' segs =>
        rw [hp, List.cons_append] at happ hm
        rw [List.tail_cons, List.mem_append, List.mem_cons] at hm
        have hlt : seg''.so < seg.so := SegStore.so_lt_of_mem_passed
          (show seg'' ∈ recBuf.passed seg.so by simp [hp])
        have htail : ∀ seg' ∈ segs ++ recBuf.next seg.so, seg'.si ≠ .first := by
          have := h.tail
          rwa [← happ] at this
        rcases hm with hm | rfl | hm
        · exact htail seg' (by simp [hm])
        · intro hfirst
          have := hso hfirst
          omega
        · exact htail seg' (by simp [hm])
  · rcases SegStore.mem_inserted.1 hm with rfl | hm
    · exact hso
    · exact h.so seg' hm
  · rcases SegStore.mem_inserted.1 hm with rfl | hm
    · exact hP
    · exact h.of seg' hm

namespace RlcUmUl

/-! ## Joining -/

theorem procSegs_mem {segLst : List (StoredSeg α)} {expSo : ℕ} {assembleSdu : Option (List α)}
    (h : ∀ seg ∈ segLst, P seg.seg) (ha : ∀ sdu, assembleSdu = some sdu → ∀ a ∈ sdu, P a) :
    ∀ sdu ∈ (procSegs segLst expSo assembleSdu).2, ∀ a ∈ sdu, P a := by
  induction segLst generalizing expSo assembleSdu with
  | nil => simp [procSegs]
  | cons seg segs ih =>
      have hseg := h seg List.mem_cons_self
      have hsegs : ∀ seg ∈ segs, P seg.seg := fun s hm => h s (List.mem_cons_of_mem _ hm)
      rw [procSegs]
      split
      · simp
      · cases hsi : seg.si with
        | first =>
            refine ih hsegs ?_
            rintro _ ⟨⟩
            simpa using hseg
        | mid =>
            refine ih hsegs fun sdu hs => ?_
            obtain ⟨sdu', hs', rfl⟩ := Option.map_eq_some_iff.1 hs
            simpa [or_imp, forall_and] using ⟨ha sdu' hs', hseg⟩
        | last =>
            simp only [List.mem_cons, forall_eq_or_imp]
            refine ⟨fun a hm => ?_, ih hsegs (by simp)⟩
            rw [List.mem_append, List.mem_singleton] at hm
            rcases hm with hm | rfl
            · cases hs : assembleSdu with
              | none => simp [hs] at hm
              | some sdu => exact ha sdu hs a (by simpa [hs] using hm)
            · exact hseg

/-- Nothing is left behind the last segment. -/
theorem procSegs_fst {segLst : List (StoredSeg α)} {expSo : ℕ} {assembleSdu : Option (List α)}
    (h : ∀ seg ∈ segLst, seg.si ≠ .first)
    (hlast : assembleSdu = none ∨ ∃ seg ∈ segLst, seg.si = .last) :
    (procSegs segLst expSo assembleSdu).1 = none := by
  induction segLst generalizing expSo assembleSdu with
  | nil => simpa [procSegs] using hlast
  | cons seg segs ih =>
      have hsegs : ∀ seg ∈ segs, seg.si ≠ .first := fun s hm => h s (List.mem_cons_of_mem _ hm)
      rw [procSegs]
      split
      · rfl
      · cases hsi : seg.si with
        | first => exact absurd hsi (h seg List.mem_cons_self)
        | mid =>
            refine ih hsegs ?_
            rcases hlast with rfl | ⟨seg', hm, hl⟩
            · exact .inl rfl
            · rcases List.mem_cons.1 hm with rfl | hm
              · rw [hsi] at hl
                cases hl
              · exact .inr ⟨seg', hm, hl⟩
        | last => exact ih hsegs (.inl rfl)

theorem procSegs_complete {segLst : List (StoredSeg α)} (h : SegsOk P segLst)
    (hlast : ∃ seg ∈ segLst, seg.si = .last) (expSo : ℕ) :
    (procSegs segLst expSo none).1 = none := by
  cases segLst with
  | nil => rfl
  | cons seg segs =>
      by_cases hsi : seg.si = .first
      · obtain ⟨seg', hm, hl⟩ := hlast
        have hm' : seg' ∈ segs := (List.mem_cons.1 hm).resolve_left fun he => by
          rw [he, hsi] at hl
          cases hl
        rw [procSegs]
        split
        · rfl
        · simp only [hsi]
          exact procSegs_fst h.tail (.inr ⟨seg', hm', hl⟩)
      · refine procSegs_fst (fun s hm => ?_) (.inl rfl)
        rcases List.mem_cons.1 hm with rfl | hm
        · exact hsi
        · exact h.tail s hm

/-! ## A step -/

/-- What holds between the steps besides the window: no SDU is half joined, and the records hold
the segments that `P` is about. A complete record has passed its segments up. -/
structure Joined (P : ℕ → α → Prop) (umUl : RlcUmUl snLen α) : Prop where
  missing : umUl.allSegRcvd umUl.vrUr = false
  assembleSdu : umUl.assembleSdu = none
  segs : ∀ sn recBuf, umUl.recBufLst sn = some recBuf → SegsOk (P sn) recBuf.segLst ∧
    (recBuf.allRcvd = true → recBuf.segLst = [])

/-- The segment completes the record of its SN. -/
def Completes (umUl : RlcUmUl snLen α) (sn : ℕ) (seg : RcvdSeg α) : Prop :=
  (rlcUmmAddRcvdSeg sn seg umUl.recBufLst).1 = true ∧
    ((rlcUmmAddRcvdSeg sn seg umUl.recBufLst).2 sn).any (·.allRcvd) = true

/-- What becomes of the record of the SN. -/
theorem rlcUmmAddRcvdSeg_taken {sn : ℕ} {seg : RcvdSeg α} {recBufLst : RecBufLst (UmRecBuf α)}
    (h : (rlcUmmAddRcvdSeg sn seg recBufLst).1 = true) :
    ∃ recBuf, (rlcUmmAddRcvdSeg sn seg recBufLst).2 =
        Function.update recBufLst sn (some recBuf) ∧
      recBuf.toSegStore = ((umStore sn recBufLst).addRcvdSeg seg).2 ∧
      ((umStore sn recBufLst).addRcvdSeg seg).1 = true := by
  rcases rlcUmmAddRcvdSeg_cases sn seg recBufLst with ⟨-, he⟩ | he
  · rw [he] at h
    cases h
  · rw [he] at h ⊢
    exact ⟨_, rfl, rfl, h⟩

/-- The record with the segment, before its SDU is passed up. -/
theorem segsOk_taken {Q : ℕ → α → Prop} {sn : ℕ} {seg : RcvdSeg α}
    {recBufLst : RecBufLst (UmRecBuf α)} {recBuf : UmRecBuf α}
    (hr : recBuf.toSegStore = ((umStore sn recBufLst).addRcvdSeg seg).2)
    (ht : ((umStore sn recBufLst).addRcvdSeg seg).1 = true)
    (hsegs : ∀ recBuf, recBufLst sn = some recBuf → SegsOk (Q sn) recBuf.segLst)
    (hso : seg.si = .first → seg.so = 0) (hQ : Q sn seg.pdu) :
    SegsOk (Q sn) recBuf.segLst ∧
      (recBuf.allRcvd = true → ∃ seg' ∈ recBuf.segLst, seg'.si = .last) := by
  obtain ⟨-, hnext, hlst, hlast⟩ := SegStore.addRcvdSeg_taken ht
  have hstore : SegsOk (Q sn) (umStore sn recBufLst).segLst := by
    rw [umStore]
    cases hrec : recBufLst sn with
    | none => exact segsOk_nil
    | some recBuf' => exact hsegs recBuf' hrec
  rw [← hr] at hlst hlast
  rw [hlst]
  exact ⟨hstore.inserted hso hQ hnext, hlast⟩

end RlcUmUl

open RlcUmUl

/-- The step is one that keeps the window right: a segment completes no record more than a window
behind `vrUr`, nor one behind which all records are complete; and the scan after the expiry of
the timer leaves no record behind, and ends. -/
def UmUlOp.StepOk (umUl : RlcUmUl snLen α) : UmUlOp snLen α → Prop
  | .pdu (.complete _) => True
  | .pdu (.segment umHdr pduSz mBuf) =>
    umUl.getValue umUl.vrUr ≤ umUl.getValue umHdr.sn →
      umUl.Completes umHdr.sn (umHdr.seg pduSz mBuf) →
      umUl.getValue umHdr.sn ≤ umUl.getValue umUl.vrUr + snLen.umWinSz ∧
        (umHdr.sn = umUl.vrUr → ∃ y < snLen.modulus,
          umUl.getValue umUl.vrUr < umUl.getValue y ∧ umUl.allSegRcvd y = false)
  | .reAsmblTmrExp => umUl.reAsmblTmr = true →
    ¬ umUl.LeavesBehind umUl.vrUx ∧ ∃ y < snLen.modulus,
      umUl.getValue umUl.vrUx ≤ umUl.getValue y ∧ umUl.allSegRcvd y = false

instance (umUl : RlcUmUl snLen α) (nextSn : ℕ) : Decidable (umUl.LeavesBehind nextSn) :=
  inferInstanceAs (Decidable (∃ sn < umUl.vrUr, umUl.recBufLst sn ≠ none ∧ _))

instance (umUl : RlcUmUl snLen α) (sn : ℕ) (seg : RcvdSeg α) :
    Decidable (umUl.Completes sn seg) :=
  inferInstanceAs (Decidable (_ ∧ _))

instance (umUl : RlcUmUl snLen α) : (op : UmUlOp snLen α) → Decidable (op.StepOk umUl)
  | .pdu (.complete _) => .isTrue trivial
  | .pdu (.segment _ _ _) => inferInstanceAs (Decidable (_ → _ → _ ∧ (_ → ∃ y < _, _)))
  | .reAsmblTmrExp => inferInstanceAs (Decidable (_ → _ ∧ ∃ y < _, _))

/-- `vrUh` stays, or moves behind an SN beyond the window. -/
def RlcUmUl.VrUhMoves (umUl umUl' : RlcUmUl snLen α) : Prop :=
  umUl'.vrUh = umUl.vrUh ∨ ∃ sn < snLen.modulus, snLen.umWinSz ≤ umUl.getValue sn ∧
    umUl'.vrUh = (sn + 1) &&& snLen.modBitMask

/-- A step up to the scan, with what the scan gives. -/
structure UntilScan (P : ℕ → α → Prop) (umUl : RlcUmUl snLen α) (s : UmScan snLen α)
    (sdus : List (List α)) : Prop where
  scan : ∃ umUl', runScan s = some umUl' ∧ Scanned s umUl'
  assembleSdu : s.1.assembleSdu = none
  segs : ∀ sn recBuf, s.1.recBufLst sn = some recBuf → SegsOk (P sn) recBuf.segLst ∧
    (recBuf.allRcvd = true → recBuf.segLst = [])
  sdus : ∀ sdu ∈ sdus, (∃ a, sdu = [a]) ∨ ∃ sn, ∀ a ∈ sdu, P sn a
  vrUh : umUl.VrUhMoves s.1

section

variable {P : ℕ → α → Prop} {umUl : RlcUmUl snLen α}

theorem untilScan_idle (hwin : umUl.WindowOk) (hj : umUl.Joined P) {sdus : List (List α)}
    (hs : ∀ sdu ∈ sdus, (∃ a, sdu = [a]) ∨ ∃ sn, ∀ a ∈ sdu, P sn a) :
    UntilScan P umUl (umUl, none) sdus :=
  ⟨hwin.noScan hj.missing, hj.assembleSdu, hj.segs, hs, .inl rfl⟩

theorem moveVrUh_frame (sn : ℕ) (umUl : RlcUmUl snLen α) :
    ∃ v l, (umUl.moveVrUh sn).1 = { umUl with
        vrUr := v
        vrUh := (sn + 1) &&& snLen.modBitMask
        recBufLst := l } ∧
      ∀ x recBuf, l x = some recBuf → umUl.recBufLst x = some recBuf := by
  rw [moveVrUh]
  simp only
  split
  · exact ⟨umUl.vrUr, umUl.recBufLst, rfl, fun _ _ => id⟩
  · rw [discardBelow]
    simp only
    split
    all_goals
      obtain ⟨l, he, hl⟩ := discardRecBufs_sub (sub32 (sub32 ((sn + 1) &&& snLen.modBitMask)
        snLen.umWinSz &&& snLen.modBitMask) umUl.vrUr &&& snLen.modBitMask) umUl.vrUr
        ({ umUl with
          vrUh := (sn + 1) &&& snLen.modBitMask
          vrUr := sub32 ((sn + 1) &&& snLen.modBitMask) snLen.umWinSz &&& snLen.modBitMask } :
          RlcUmUl snLen α)
      exact ⟨_, l, by simp only [scanNext]; rw [he], hl⟩

section

variable {sn : ℕ} {recBuf : UmRecBuf α}

/-- The records with that of `sn` in its new form. -/
theorem segs_update (hj : umUl.Joined P) {recBuf : UmRecBuf α}
    (hr : SegsOk (P sn) recBuf.segLst ∧ (recBuf.allRcvd = true → recBuf.segLst = [])) :
    ∀ x recBuf', Function.update umUl.recBufLst sn (some recBuf) x = some recBuf' →
      SegsOk (P x) recBuf'.segLst ∧ (recBuf'.allRcvd = true → recBuf'.segLst = []) := by
  intro x recBuf' hx
  rw [Function.update_apply] at hx
  split_ifs at hx with he
  · obtain rfl := Option.some.inj hx
    rw [he]
    exact hr
  · exact hj.segs x recBuf' hx

theorem windowOk_update (hwin : umUl.WindowOk) {a : Option (List α)}
    (hkeep : umUl.MayKeep sn recBuf.allRcvd) :
    WindowOk ({ umUl with
      recBufLst := Function.update umUl.recBufLst sn (some recBuf)
      assembleSdu := a } : RlcUmUl snLen α) := by
  refine ⟨hwin.vrUr_le, hwin.vrUh_le, hwin.vrUx_le, fun x recBuf' hx => ?_⟩
  simp only [Function.update_apply] at hx
  split_ifs at hx with he
  · obtain rfl := Option.some.inj hx
    rw [he]
    exact hkeep
  · exact hwin.recBuf x recBuf' hx

theorem allSegRcvd_update {a : Option (List α)} {x : ℕ} (hx : x ≠ sn) :
    RlcUmUl.allSegRcvd ({ umUl with
      recBufLst := Function.update umUl.recBufLst sn (some recBuf)
      assembleSdu := a } : RlcUmUl snLen α) x = umUl.allSegRcvd x := by
  simp only [allSegRcvd, Function.update_of_ne hx]

/-- The segment completes its record. -/
theorem segStored_complete (hwin : umUl.WindowOk) (hj : umUl.Joined P) (hsn : sn < snLen.modulus)
    (hge : umUl.getValue umUl.vrUr ≤ umUl.getValue sn) (hsegs : SegsOk (P sn) recBuf.segLst)
    (hlast : ∃ seg ∈ recBuf.segLst, seg.si = .last) (hall : recBuf.allRcvd = true)
    (hle : umUl.getValue sn ≤ umUl.getValue umUl.vrUr + snLen.umWinSz)
    (hend : sn = umUl.vrUr → ∃ y < snLen.modulus,
      umUl.getValue umUl.vrUr < umUl.getValue y ∧ umUl.allSegRcvd y = false) :
    let r := ({ umUl with recBufLst := Function.update umUl.recBufLst sn (some recBuf) } :
      RlcUmUl snLen α).segStored sn (umUl.getValue umUl.vrUr) (umUl.getValue sn)
    UntilScan P umUl r.1 r.2 := by
  obtain ⟨recBuf', hr'⟩ : ∃ recBuf' : UmRecBuf α, recBuf' = { recBuf with segLst := [] } :=
    ⟨_, rfl⟩
  have hall' : recBuf'.allRcvd = true := by rw [hr']; exact hall
  have hnil : recBuf'.segLst = [] := by rw [hr']
  have hnone := procSegs_complete hsegs hlast 0
  have hwin' := @windowOk_update snLen α umUl sn recBuf' hwin none
    ⟨le_modBitMask_iff.2 hsn, hge, .inr ⟨hall', hle⟩⟩
  have hstep : (({ umUl with recBufLst := Function.update umUl.recBufLst sn (some recBuf) } :
      RlcUmUl snLen α).segStored sn (umUl.getValue umUl.vrUr) (umUl.getValue sn)) =
      (if umUl.getValue sn = umUl.getValue umUl.vrUr then
        scanNext { umUl with
          recBufLst := Function.update umUl.recBufLst sn (some recBuf')
          assembleSdu := none }
      else ({ umUl with
        recBufLst := Function.update umUl.recBufLst sn (some recBuf')
        assembleSdu := none }, none), (procSegs recBuf.segLst 0 none).2) := by
    rw [segStored]
    simp only [Function.update_self, hall, if_true, rlcUmmReAssembleSdus, Function.update_idem,
      hj.assembleSdu, hnone, hr']
  have hsdus : ∀ sdu ∈ (procSegs recBuf.segLst 0 none).2,
      (∃ a, sdu = [a]) ∨ ∃ sn, ∀ a ∈ sdu, P sn a := fun sdu hm =>
    .inr ⟨sn, procSegs_mem hsegs.of (by simp) sdu hm⟩
  have hrecs := @segs_update snLen α P umUl sn hj recBuf' ⟨by rw [hnil]; exact segsOk_nil, fun _ => hnil⟩
  rw [hstep]
  simp only
  by_cases hat : umUl.getValue sn = umUl.getValue umUl.vrUr
  · have hsnUr : sn = umUl.vrUr := getValue_inj hwin.vrUh_lt hsn hwin.vrUr_lt hat
    obtain ⟨y, hy, hlt, hm⟩ := hend hsnUr
    rw [if_pos hat]
    refine ⟨hwin'.scanNext ⟨y, hy, hlt, ?_⟩, rfl, hrecs, hsdus, .inl rfl⟩
    rw [allSegRcvd_update (fun he => by rw [he, hat] at hlt; exact lt_irrefl _ hlt)]
    exact hm
  · rw [if_neg hat]
    refine ⟨hwin'.noScan ?_, rfl, hrecs, hsdus, .inl rfl⟩
    rw [allSegRcvd_update (fun he => hat (by rw [← he]))]
    exact hj.missing

/-- The segment leaves its record incomplete. -/
theorem segStored_incomplete (hwin : umUl.WindowOk) (hj : umUl.Joined P)
    (hsn : sn < snLen.modulus) (hge : umUl.getValue umUl.vrUr ≤ umUl.getValue sn)
    (hsegs : SegsOk (P sn) recBuf.segLst) (hall : recBuf.allRcvd = false) :
    let r := ({ umUl with recBufLst := Function.update umUl.recBufLst sn (some recBuf) } :
      RlcUmUl snLen α).segStored sn (umUl.getValue umUl.vrUr) (umUl.getValue sn)
    UntilScan P umUl r.1 r.2 := by
  have hrecs := segs_update hj ⟨hsegs, fun h => by rw [hall] at h; cases h⟩
  have hmiss : (Function.update umUl.recBufLst sn (some recBuf) umUl.vrUr).any (·.allRcvd) =
      false := by
    rw [Function.update_apply]
    split
    · simpa using hall
    · exact hj.missing
  have hstep : (({ umUl with recBufLst := Function.update umUl.recBufLst sn (some recBuf) } :
      RlcUmUl snLen α).segStored sn (umUl.getValue umUl.vrUr) (umUl.getValue sn)) =
      if umUl.getValue sn < snLen.umWinSz then
        (({ umUl with recBufLst := Function.update umUl.recBufLst sn (some recBuf) }, none), [])
      else (moveVrUh sn { umUl with
        recBufLst := Function.update umUl.recBufLst sn (some recBuf) }, []) := by
    have hcheck : rlcUmmCheckSnInReassemblyWindow sn ({ umUl with
        recBufLst := Function.update umUl.recBufLst sn (some recBuf) } : RlcUmUl snLen α) =
        decide (umUl.getValue sn < snLen.umWinSz) := by
      rw [← getValue_vrUh hwin.vrUh_lt]
      rfl
    rw [segStored]
    simp only [Function.update_self, hall, hcheck, decide_eq_true_eq, Bool.false_eq_true, if_false]
  rw [hstep]
  by_cases hin : umUl.getValue sn < snLen.umWinSz
  · rw [if_pos hin]
    refine ⟨WindowOk.noScan ?_ hmiss, hj.assembleSdu, hrecs, nofun, .inl rfl⟩
    exact @windowOk_update snLen α umUl sn recBuf hwin umUl.assembleSdu
      ⟨le_modBitMask_iff.2 hsn, hge, .inl (by rw [getValue_vrUh hwin.vrUh_lt]; exact hin)⟩
  · rw [if_neg hin]
    obtain ⟨v, l, he, hl⟩ := moveVrUh_frame sn ({ umUl with
      recBufLst := Function.update umUl.recBufLst sn (some recBuf) } : RlcUmUl snLen α)
    refine ⟨hwin.moveVrUh hsn (by omega) hge (fun x recBuf' hx => ?_) (by simpa using hall) hmiss,
      by simp only [he]; exact hj.assembleSdu, fun x recBuf' hx => ?_, nofun,
      .inr ⟨sn, hsn, by omega, by simp only [he]⟩⟩
    · rw [Function.update_apply] at hx
      split_ifs at hx with heq
      · exact .inl heq
      · exact .inr hx
    · simp only [he] at hx
      exact hrecs x recBuf' (hl x recBuf' hx)

end

/-! ## Steps and runs -/

/-- The timer is touched, and `vrUx` stays or becomes `vrUh`. -/
def TouchesTmr (f : RlcUmUl snLen α → RlcUmUl snLen α) : Prop :=
  ∀ umUl, ∃ b x, f umUl = { umUl with
    reAsmblTmr := b
    vrUx := x } ∧ (x = umUl.vrUx ∨ x = umUl.vrUh)

theorem touchesTmr_id : TouchesTmr (id : RlcUmUl snLen α → _) :=
  fun umUl => ⟨umUl.reAsmblTmr, umUl.vrUx, rfl, .inl rfl⟩

theorem touchesTmr_updateTmr (sn : ℕ) :
    TouchesTmr (updateTmr sn : RlcUmUl snLen α → RlcUmUl snLen α) := by
  intro umUl
  rw [updateTmr]
  simp only
  split
  · exact ⟨true, umUl.vrUh, rfl, .inr rfl⟩
  · exact ⟨_, umUl.vrUx, rfl, .inl rfl⟩

theorem touchesTmr_restartTmr :
    TouchesTmr (restartTmr : RlcUmUl snLen α → RlcUmUl snLen α) := by
  intro umUl
  rw [restartTmr]
  split
  · exact ⟨true, umUl.vrUh, rfl, .inr rfl⟩
  · exact ⟨umUl.reAsmblTmr, umUl.vrUx, rfl, .inl rfl⟩

theorem untilScan_spec (hwin : umUl.WindowOk) (hj : umUl.Joined P) {op : UmUlOp snLen α}
    (hop : op.StepOk umUl)
    (hP : ∀ umHdr pduSz mBuf, op = .pdu (.segment umHdr pduSz mBuf) → P umHdr.sn mBuf) :
    UntilScan P umUl (op.untilScan umUl).1 (op.untilScan umUl).2.1 ∧
      TouchesTmr (op.untilScan umUl).2.2 := by
  cases op with
  | pdu pdu =>
      cases pdu with
      | complete sdu =>
          refine ⟨untilScan_idle hwin hj fun sdu' hm => .inl ⟨sdu, ?_⟩, touchesTmr_id⟩
          exact List.mem_singleton.1 hm
      | segment umHdr pduSz mBuf =>
          have hsn := le_modBitMask_iff.1 umHdr.sn_le
          have hso : (umHdr.seg pduSz mBuf).si = .first → (umHdr.seg pduSz mBuf).so = 0 :=
            umHdr.so_first
          rw [UmUlOp.untilScan]
          by_cases hlt : umUl.getValue umHdr.sn < umUl.getValue umUl.vrUr
          · simp only [hlt, if_true]
            exact ⟨untilScan_idle hwin hj nofun, touchesTmr_id⟩
          · have hge := not_lt.1 hlt
            simp only [hlt, if_false]
            have hop' := hop hge
            rw [Completes] at hop'
            have hrej := (umm_adds umHdr.sn).rejected (umHdr.seg pduSz mBuf) umUl.recBufLst trivial
            have htaken := @rlcUmmAddRcvdSeg_taken α umHdr.sn (umHdr.seg pduSz mBuf) umUl.recBufLst
            generalize rlcUmmAddRcvdSeg umHdr.sn (umHdr.seg pduSz mBuf) umUl.recBufLst = added
              at hop' hrej htaken ⊢
            rcases added with ⟨_ | _, recBufLst⟩
            · simp only at hrej ⊢
              rw [hrej trivial]
              exact ⟨untilScan_idle hwin hj nofun, touchesTmr_id⟩
            · obtain ⟨recBuf, he, hr, ht⟩ := htaken rfl
              simp only at he hop' ⊢
              subst he
              obtain ⟨hsegs, hlast⟩ := segsOk_taken hr ht (fun recBuf' h => (hj.segs _ recBuf' h).1)
                hso (hP umHdr pduSz mBuf rfl)
              refine ⟨?_, touchesTmr_updateTmr _⟩
              by_cases hall : recBuf.allRcvd = true
              · obtain ⟨hle, hend⟩ := hop' ⟨trivial, by simpa using hall⟩
                exact segStored_complete hwin hj hsn hge hsegs (hlast hall) hall hle hend
              · exact segStored_incomplete hwin hj hsn hge hsegs (by simpa using hall)
  | reAsmblTmrExp =>
      rw [UmUlOp.untilScan]
      by_cases htmr : umUl.reAsmblTmr = true
      · obtain ⟨hleave, y, hy, hle, hm⟩ := hop htmr
        rw [if_pos htmr]
        have hwin' : WindowOk { umUl with reAsmblTmr := false } :=
          ⟨hwin.vrUr_le, hwin.vrUh_le, hwin.vrUx_le, hwin.recBuf⟩
        refine ⟨⟨hwin'.scan hwin.vrUx_lt ?_ (fun _ => hj.missing) hleave, hj.assembleSdu, hj.segs,
          nofun, .inl rfl⟩, touchesTmr_restartTmr⟩
        rcases Nat.lt_or_ge (umUl.getValue umUl.vrUr) (umUl.getValue umUl.vrUx) with hlt | hge
        · exact ⟨y, hy, hle, hlt.le.trans hle, hm⟩
        · exact ⟨umUl.vrUr, hwin.vrUr_lt, hge, le_rfl, hj.missing⟩
      · rw [if_neg htmr]
        exact ⟨untilScan_idle hwin hj nofun, touchesTmr_id⟩

end

/-- After the step the window is right, and the scan has come to where it should. -/
structure UmUlOp.StepRight (umUl : RlcUmUl snLen α) (op : UmUlOp snLen α)
    (umUl' : RlcUmUl snLen α) : Prop where
  window : umUl'.WindowOk
  scan : ∀ nextSn, (op.untilScan umUl).1.2 = some nextSn →
    (op.untilScan umUl).1.1.ScanRight nextSn umUl'.vrUr

/-- **What a step keeps.** -/
theorem UmUlOp.step_spec {P : ℕ → α → Prop} {umUl : RlcUmUl snLen α} (hwin : umUl.WindowOk)
    (hj : umUl.Joined P) {op : UmUlOp snLen α} (hop : op.StepOk umUl)
    (hP : ∀ umHdr pduSz mBuf, op = .pdu (.segment umHdr pduSz mBuf) → P umHdr.sn mBuf) :
    ∃ umUl' sdus, op.step umUl = some (umUl', sdus) ∧ op.StepRight umUl umUl' ∧
      umUl'.Joined P ∧ umUl.VrUhMoves umUl' ∧
      ∀ sdu ∈ sdus, (∃ a, sdu = [a]) ∨ ∃ sn, ∀ a ∈ sdu, P sn a := by
  obtain ⟨⟨⟨umUl₁, hrun, hscan⟩, hasm, hsegs, hsdus, hmoves⟩, htmr⟩ :=
    untilScan_spec hwin hj hop hP
  obtain ⟨b, x, he, hx⟩ := htmr umUl₁
  have hframe := hscan.frame
  refine ⟨(op.untilScan umUl).2.2 umUl₁, (op.untilScan umUl).2.1,
    by rw [UmUlOp.step, hrun]; rfl, ?_, ?_, ?_, hsdus⟩
  · rw [he]
    refine ⟨⟨hscan.window.vrUr_le, hscan.window.vrUh_le, ?_, hscan.window.recBuf⟩, hscan.right⟩
    rcases hx with rfl | rfl
    · exact hscan.window.vrUx_le
    · exact hscan.window.vrUh_le
  · rw [he]
    refine ⟨hscan.missing, ?_, fun sn recBuf hr => hsegs sn recBuf (hscan.recBufLst sn recBuf hr)⟩
    rw [hframe]
    exact hasm
  · rw [he, VrUhMoves]
    rw [hframe]
    exact hmoves

end OaiCu.OduRlc
