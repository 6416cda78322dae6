import OaiCu.Lib.Lists
import OaiCu.Lib.Machine
import OaiCu.Lib.Serial
import OaiCu.NrRlc.AmParts

/-!
# RLC AM: the lists of the transmitter

`wait_list` is sorted by SN and SO, relative to `tx_next_ack`; `tx_list` holds the rest of the
SDU that is being sent and the SDUs after it. Segments on their way from one list to another
are kept apart as `flight`.
-/

namespace OaiCu.NrRlc

open Serial

/-- `s` is at or before `s'` by SN and SO, for the modulus base `b`. -/
def segLe (M b : ℤ) (sn : Segment → ℤ) (s s' : Segment) : Prop :=
  rel M b (sn s) < rel M b (sn s') ∨ (sn s = sn s' ∧ s.so ≤ s'.so)

theorem segLe_trans {M b : ℤ} {sn : Segment → ℤ} (s s' s'' : Segment)
    (h : segLe M b sn s s') (h' : segLe M b sn s' s'') : segLe M b sn s s'' := by
  unfold segLe at *
  rcases h with h | ⟨h, hso⟩ <;> rcases h' with h' | ⟨h', hso'⟩
  · left; omega
  · left; rw [← h']; exact h
  · left; rw [h]; exact h'
  · right; exact ⟨h.trans h', by omega⟩

theorem segLe_sn {M b : ℤ} {sn : Segment → ℤ} {s s' : Segment} (h : segLe M b sn s s') :
    rel M b (sn s) ≤ rel M b (sn s') := by
  rcases h with h | ⟨h, -⟩
  · exact h.le
  · rw [h]

/-- The segments that were sent and are not acknowledged. -/
def AmTx.outstanding (tx : AmTx) : List Segment := tx.waitList ++ tx.retransmitList

/-- SNs are in the window and belong to one SDU each, `tx_list` is in order, and so is
`wait_list`. -/
structure AmTx.SnInv (cfg : AmConfig) (tx : AmTx) (flight : List Segment) : Prop where
  txNextAck_range : 0 ≤ tx.txNextAck ∧ tx.txNextAck < cfg.snModulus
  txNext_range : 0 ≤ tx.txNext ∧ tx.txNext < cfg.snModulus
  txNext_le : rel cfg.snModulus tx.txNextAck tx.txNext ≤ cfg.windowSize
  sn_range : ∀ s ∈ tx.outstanding ++ flight, 0 ≤ tx.sn s ∧ tx.sn s < cfg.snModulus
  sn_le : ∀ s ∈ tx.outstanding ++ flight,
    rel cfg.snModulus tx.txNextAck (tx.sn s) ≤ rel cfg.snModulus tx.txNextAck tx.txNext
  sn_inj : ∀ s ∈ tx.outstanding ++ flight, ∀ s' ∈ tx.outstanding ++ flight,
    tx.sn s = tx.sn s' → s.sdu = s'.sdu
  /-- Only the SDU that is being sent has SN `tx_next`. -/
  unfinished : ∀ s ∈ tx.outstanding ++ flight, tx.sn s = tx.txNext →
    ∃ h, tx.txList.head? = some h ∧ h.sdu = s.sdu ∧ h.isFirst = false
  head_isLast : ∀ h, tx.txList.head? = some h → h.isLast = true
  head_sn : ∀ h, tx.txList.head? = some h → h.isFirst = false → tx.sn h = tx.txNext
  tail_whole : ∀ s ∈ tx.txList.tail, s.isFirst = true ∧ s.isLast = true
  txEnd_eq : tx.txEnd = tx.txList.getLast?.map Segment.addr
  waitSorted : tx.waitList.Pairwise (segLe cfg.snModulus tx.txNextAck tx.sn)

section Lists

variable {cfg : AmConfig} {tx tx' : AmTx} {flight : List Segment}

/-- On residues `modulus_tx` is the distance from `tx_next_ack`. -/
theorem modulusTx_eq (hta : 0 ≤ tx.txNextAck ∧ tx.txNextAck < cfg.snModulus) {a : ℤ} (h0 : 0 ≤ a)
    (h1 : a < cfg.snModulus) : modulusTx cfg tx a = rel cfg.snModulus tx.txNextAck a :=
  sub_wrap_eq_rel hta.1 hta.2 h0 h1

theorem snCompareTx_eq (hta : 0 ≤ tx.txNextAck ∧ tx.txNextAck < cfg.snModulus) {a b : ℤ}
    (ha : 0 ≤ a ∧ a < cfg.snModulus) (hb : 0 ≤ b ∧ b < cfg.snModulus) :
    snCompareTx cfg tx a b =
      rel cfg.snModulus tx.txNextAck a - rel cfg.snModulus tx.txNextAck b := by
  rw [snCompareTx, modulusTx_eq hta ha.1 ha.2, modulusTx_eq hta hb.1 hb.2]

/-! ## `nr_rlc_sdu_segment_list_append` and `nr_rlc_sdu_segment_list_add` -/

theorem cutAfter_getLast {l : List Segment} {s : Segment} (hs : l.getLast? = some s)
    (hn : (l.map Segment.addr).Nodup) : cutAfter s.addr l = some l := by
  induction l with
  | nil => cases hs
  | cons x l ih =>
      rw [cutAfter]
      cases l with
      | nil =>
          rw [List.getLast?_singleton, Option.some.injEq] at hs
          rw [if_pos (by rw [hs]), hs]
      | cons y l =>
          rw [List.getLast?_cons_cons] at hs
          have hn' := List.nodup_cons.mp hn
          have hx : x.addr ≠ s.addr := by
            intro h
            exact hn'.1 (h ▸ List.mem_map_of_mem (List.mem_of_getLast? hs))
          rw [if_neg hx, ih hs hn'.2]
          rfl

/-- Appending when `end` is the last node, or there is none, keeps all nodes. -/
theorem segmentListAppend_getLast {l : List Segment} {s : Segment}
    (hn : (l.map Segment.addr).Nodup) :
    segmentListAppend l (l.getLast?.map Segment.addr) s = .ok (l ++ [s], some s.addr) := by
  cases l with
  | nil => rfl
  | cons x l =>
      obtain ⟨y, hy⟩ : ∃ y, (x :: l).getLast? = some y := ⟨_, List.getLast?_eq_some_getLast (by simp)⟩
      rw [hy, Option.map_some, segmentListAppend]
      rw [cutAfter_getLast hy hn]
      simp

/-- The order in which `nr_rlc_sdu_segment_list_add` inserts. -/
theorem segmentListAdd_sorted {l : List Segment} {s : Segment}
    (hta : 0 ≤ tx.txNextAck ∧ tx.txNextAck < cfg.snModulus)
    (hr : ∀ x ∈ s :: l, 0 ≤ tx.sn x ∧ tx.sn x < cfg.snModulus)
    (hl : l.Pairwise (segLe cfg.snModulus tx.txNextAck tx.sn)) :
    (segmentListAdd (snCompareTx cfg tx) tx.sn l s).Pairwise
      (segLe cfg.snModulus tx.txNextAck tx.sn) := by
  refine Lists.pairwise_orderedInsert hl segLe_trans ?_ ?_
  · intro y hy hc
    rw [snCompareTx_eq hta (hr y (List.mem_cons_of_mem _ hy)) (hr s List.mem_cons_self)] at hc
    rcases hc with hc | ⟨hc, hso⟩
    · left; omega
    · right; exact ⟨hc.symm, hso.le⟩
  · intro y hy hc
    have hry := hr y (List.mem_cons_of_mem _ hy)
    have hrs := hr s List.mem_cons_self
    rw [snCompareTx_eq hta hry hrs, not_or, not_and] at hc
    by_cases heq : rel cfg.snModulus tx.txNextAck (tx.sn y) =
        rel cfg.snModulus tx.txNextAck (tx.sn s)
    · have hsn := rel_inj hry.1 hry.2 hrs.1 hrs.2 heq
      right; exact ⟨hsn, not_lt.mp (hc.2 hsn)⟩
    · left; omega

/-- `wait_end`, if it is a node of `wait_list`, is the last one. -/
def AmTx.WaitEndLast (tx : AmTx) : Prop :=
  ∀ s ∈ tx.waitList, tx.waitEnd = some s.addr → tx.waitList.getLast? = some s

/-- `wait_end` is the last node of `wait_list`, and `NULL` if there is none. -/
def AmTx.WaitEndExact (tx : AmTx) : Prop := tx.waitEnd = tx.waitList.getLast?.map Segment.addr

theorem getLast?_eq_of_addr {l : List Segment} (hn : (l.map Segment.addr).Nodup) {s : Segment}
    (hs : s ∈ l) (he : l.getLast?.map Segment.addr = some s.addr) : l.getLast? = some s := by
  obtain ⟨x, hx, hxs⟩ := Option.map_eq_some_iff.mp he
  rw [hx, List.inj_on_of_nodup_map hn (List.mem_of_getLast? hx) hs hxs]

/-- **A segment that was sent goes to `wait_list`.** It gets there in order, and no other
segment is lost on the way. -/
theorem putInWaitList_spec {s : Segment} (h : tx.SnInv cfg (s :: flight))
    (hn : ((s :: tx.waitList).map Segment.addr).Nodup)
    (hne : ∀ x ∈ tx.waitList, tx.sn x = tx.sn s → x.so ≠ s.so) (hend : tx.WaitEndLast)
    (hp : putInWaitList cfg tx s = .ok tx') :
    ∃ l e, tx' = { tx with waitList := l, waitEnd := e } ∧ l.Perm (s :: tx.waitList) ∧
      l.Pairwise (segLe cfg.snModulus tx.txNextAck tx.sn) ∧ tx'.WaitEndLast ∧
      (tx.WaitEndExact → tx'.WaitEndExact) := by
  have hnw : (tx.waitList.map Segment.addr).Nodup := (List.nodup_cons.mp hn).2
  have hsn : s.addr ∉ tx.waitList.map Segment.addr := (List.nodup_cons.mp hn).1
  have hws : ∀ x ∈ s :: tx.waitList, 0 ≤ tx.sn x ∧ tx.sn x < cfg.snModulus := by
    intro x hx
    refine h.sn_range x ?_
    rcases List.mem_cons.mp hx with rfl | hx
    · simp
    · simp [AmTx.outstanding, hx]
  have hcmp : ∀ x ∈ tx.waitList, snCompareTx cfg tx (tx.sn s) (tx.sn x) =
      rel cfg.snModulus tx.txNextAck (tx.sn s) - rel cfg.snModulus tx.txNextAck (tx.sn x) :=
    fun x hx => snCompareTx_eq h.txNextAck_range (hws s List.mem_cons_self)
      (hws x (List.mem_cons_of_mem _ hx))
  unfold putInWaitList at hp
  cases he : tx.waitEnd with
  | none =>
      -- `wait_end` is `NULL`: the append only returns on an empty list
      simp only [he] at hp
      obtain ⟨⟨l, e⟩, happ, hp⟩ := Machine.bind_ok hp
      cases hw : tx.waitList with
      | cons x l' =>
          rw [hw] at happ
          cases happ
      | nil =>
          rw [hw] at happ
          injection happ with happ
          injection happ with h1 h2
          injection hp with hp
          subst h1 h2 hp
          refine ⟨[s], some s.addr, rfl, by simp, by simp, ?_, fun _ => rfl⟩
          intro x hx _
          simp only [List.mem_singleton] at hx
          simp [hx]
  | some a =>
      simp only [he] at hp
      cases hf : tx.waitList.find? (fun s => s.addr = a) with
      | none =>
          rw [hf] at hp
          cases hp
      | some x =>
          simp only [hf] at hp
          have hx : x ∈ tx.waitList := List.mem_of_find?_eq_some hf
          have hxa : x.addr = a := by simpa using List.find?_some hf
          have hlast : tx.waitList.getLast? = some x := hend x hx (by rw [he, hxa])
          have hbefore : ∀ y ∈ tx.waitList, segLe cfg.snModulus tx.txNextAck tx.sn y x := by
            intro y hy
            obtain ⟨front, hfront⟩ := List.getLast?_eq_some_iff.mp hlast
            rw [hfront] at hy
            rcases List.mem_append.mp hy with hy | hy
            · have := h.waitSorted
              rw [hfront, List.pairwise_append] at this
              exact this.2.2 y hy x (by simp)
            · rw [List.mem_singleton.mp hy]
              exact .inr ⟨rfl, le_refl _⟩
          rw [hcmp x hx] at hp
          split at hp
          · -- `s` comes after the last node
            rename_i hc
            have happ : segmentListAppend tx.waitList (some a) s =
                .ok (tx.waitList ++ [s], some s.addr) := by
              have := @segmentListAppend_getLast tx.waitList s hnw
              rw [hlast, Option.map_some, hxa] at this
              exact this
            rw [happ] at hp
            injection hp with hp
            subst hp
            refine ⟨tx.waitList ++ [s], some s.addr, rfl, List.perm_append_comm, ?_, ?_, ?_⟩
            · refine List.pairwise_append.mpr ⟨h.waitSorted, by simp, ?_⟩
              intro y hy z hz
              rw [List.mem_singleton.mp hz]
              refine segLe_trans _ _ _ (hbefore y hy) ?_
              rcases hc with hc | ⟨hc, hso⟩
              · left; omega
              · right
                have hrx := hws x (List.mem_cons_of_mem _ hx)
                have hrs := hws s List.mem_cons_self
                have heq : rel cfg.snModulus tx.txNextAck (tx.sn x) =
                    rel cfg.snModulus tx.txNextAck (tx.sn s) := by omega
                exact ⟨rel_inj hrx.1 hrx.2 hrs.1 hrs.2 heq, hso.le⟩
            · intro y hy hya
              simp only [Option.some.injEq] at hya
              rcases List.mem_append.mp hy with hy | hy
              · exact absurd (hya ▸ List.mem_map_of_mem hy) hsn
              · rw [List.mem_singleton.mp hy]
                simp
            · intro _
              simp [AmTx.WaitEndExact]
          · -- `s` comes before the last node
            rename_i hc
            have hrx : snCompareTx cfg tx (tx.sn x) (tx.sn s) > 0 ∨
                (tx.sn x = tx.sn s ∧ x.so > s.so) := by
              rw [snCompareTx_eq h.txNextAck_range (hws x (List.mem_cons_of_mem _ hx))
                (hws s List.mem_cons_self)]
              rw [not_or, not_and] at hc
              by_cases heq : rel cfg.snModulus tx.txNextAck (tx.sn s) =
                  rel cfg.snModulus tx.txNextAck (tx.sn x)
              · right
                have hrx := hws x (List.mem_cons_of_mem _ hx)
                have hrs := hws s List.mem_cons_self
                have hsn := rel_inj hrx.1 hrx.2 hrs.1 hrs.2 heq.symm
                have := hne x hx hsn
                have := hc.2 (by omega)
                exact ⟨hsn, by omega⟩
              · left; omega
            have hperm : (segmentListAdd (snCompareTx cfg tx) tx.sn tx.waitList s).Perm
                (s :: tx.waitList) := List.perm_orderedInsert _ _ _
            have hlast' : (segmentListAdd (snCompareTx cfg tx) tx.sn tx.waitList s).getLast? =
                some x := Lists.getLast?_orderedInsert hlast hrx
            have hsort := segmentListAdd_sorted h.txNextAck_range hws h.waitSorted
            generalize segmentListAdd (snCompareTx cfg tx) tx.sn tx.waitList s = l
              at hp hperm hlast' hsort
            have htx' : tx' = { tx with waitList := l, waitEnd := some a } := by
              split at hp
              · rename_i y
                have hlen := hperm.length_eq
                have hpos := List.length_pos_of_mem hx
                simp only [List.length_cons, List.length_nil] at hlen
                omega
              · injection hp with hp
                rw [← hp, ← he]
            subst htx'
            refine ⟨l, some a, rfl, hperm, hsort, ?_, ?_⟩
            · intro y hy hya
              refine getLast?_eq_of_addr ((hperm.map Segment.addr).nodup_iff.mpr hn) hy ?_
              rw [hlast', Option.map_some, hxa]
              exact hya
            · intro _
              simp [AmTx.WaitEndExact, hlast', hxa]

end Lists

/-- Fewer segments, and none of them changed. -/
theorem AmTx.SnInv.sub {cfg : AmConfig} {tx tx' : AmTx} (h : tx.SnInv cfg [])
    (hta : tx'.txNextAck = tx.txNextAck) (htn : tx'.txNext = tx.txNext)
    (hl : tx'.txList = tx.txList) (he : tx'.txEnd = tx.txEnd) (hsn : tx'.sn = tx.sn)
    (hout : ∀ s ∈ tx'.outstanding, s ∈ tx.outstanding)
    (hw : tx'.waitList.Sublist tx.waitList) : tx'.SnInv cfg [] := by
  have hout' : ∀ s ∈ tx'.outstanding ++ [], s ∈ tx.outstanding ++ [] := by simpa using hout
  refine ⟨?_, ?_, ?_, ?_, ?_, ?_, ?_, ?_, ?_, ?_, ?_, ?_⟩
  · exact hta ▸ h.txNextAck_range
  · exact htn ▸ h.txNext_range
  · rw [hta, htn]
    exact h.txNext_le
  · intro s hs
    rw [hsn]
    exact h.sn_range s (hout' s hs)
  · intro s hs
    rw [hta, htn, hsn]
    exact h.sn_le s (hout' s hs)
  · intro s hs s' hs' heq
    rw [hsn] at heq
    exact h.sn_inj s (hout' s hs) s' (hout' s' hs') heq
  · intro s hs heq
    rw [hsn, htn] at heq
    rw [hl]
    exact h.unfinished s (hout' s hs) heq
  · rw [hl]
    exact h.head_isLast
  · rw [hl, hsn, htn]
    exact h.head_sn
  · rw [hl]
    exact h.tail_whole
  · rw [hl, he]
    exact h.txEnd_eq
  · rw [hta, hsn]
    exact h.waitSorted.sublist hw

/-! ## Taking a segment off a list to send it -/

/-- `retransmit_list` is sorted by SN. -/
def AmTx.RetxSnSorted (cfg : AmConfig) (tx : AmTx) : Prop :=
  tx.retransmitList.Pairwise fun s s' =>
    rel cfg.snModulus tx.txNextAck (tx.sn s) ≤ rel cfg.snModulus tx.txNextAck (tx.sn s')

/-- `retransmit_list` is sorted by SN and SO. -/
def AmTx.RetxSorted (cfg : AmConfig) (tx : AmTx) : Prop :=
  tx.retransmitList.Pairwise (segLe cfg.snModulus tx.txNextAck tx.sn)

theorem AmTx.RetxSorted.sn {cfg : AmConfig} {tx : AmTx} (h : tx.RetxSorted cfg) :
    tx.RetxSnSorted cfg := h.imp segLe_sn

/-- The invariant of the transmitter, with the segments `lost` so far. -/
structure AmTx.Inv (cfg : AmConfig) (tx : AmTx) (lost : List Segment) : Prop where
  parts : tx.Parts lost
  snInv : tx.SnInv cfg []
  waitEnd : tx.WaitEndLast
  retxSorted : tx.RetxSnSorted cfg

theorem AmTx.Parts.waitList_nodup {tx : AmTx} {lost : List Segment} (h : tx.Parts lost) :
    (tx.waitList.map Segment.addr).Nodup := by
  refine List.Nodup.sublist (List.Sublist.map _ ?_) h.addr_nodup
  simp only [AmTx.segments, List.append_assoc]
  exact (List.sublist_append_left _ _).trans (List.sublist_append_right _ _)

section Take

variable {cfg : AmConfig} {tx : AmTx} {lost : List Segment} {r : Segment} {next : List Segment}
  {size : ℕ}

theorem takeRetx_parts (h : tx.Parts lost) (hr : tx.retransmitList = r :: next)
    (hsize : computePduHeaderSize cfg r < size) :
    (takeRetx cfg tx r next size).1.Parts ((takeRetx cfg tx r next size).2 :: lost) ∧
      (takeRetx cfg tx r next size).1.heldSize = tx.heldSize := by
  have hperm : (r :: (tx.txList ++ tx.waitList ++ next ++ lost) ++ tx.freed).Perm
      (tx.segments lost) := by
    simp only [AmTx.segments, hr]
    grind
  unfold takeRetx
  simp only
  split
  · rename_i hbig
    refine h.split hperm hsize hbig ?_ rfl rfl ?_ ?_ ?_ rfl
    · simp only [AmTx.segments, AmTx.addRef]
      grind
    · intro i
      simp only [AmTx.addRef]
      by_cases hi : i = r.sdu
      · subst hi
        simp [resegment]
      · simp [resegment, hi]
    · intro i
      simp only [AmTx.addRef]
      by_cases hi : i = r.sdu
      · subst hi
        simp [resegment]
      · simp [resegment, hi, Ne.symm hi]
    · intro i
      simp only [AmTx.addRef]
      by_cases hi : i = r.sdu
      · subst hi
        simp [resegment]
      · simp [resegment, hi]
  · refine ⟨h.of_perm ?_ rfl rfl (fun i => ⟨rfl, rfl⟩) h.freeCount_eq, rfl⟩
    simp only [AmTx.segments, hr]
    grind

/-- What `takeRetx` leaves alone, and what the two parts have of the segment. -/
theorem takeRetx_spec (cfg : AmConfig) (tx : AmTx) (r : Segment) (next : List Segment) {size : ℕ}
    (hsize : computePduHeaderSize cfg r < size) {tx₁ : AmTx} {s : Segment}
    (h : takeRetx cfg tx r next size = (tx₁, s)) :
    (∃ retx bst heap seg, tx₁ = { tx with
      retransmitList := retx
      bstatusRetxSize := bst
      heap := heap
      nextSeg := seg } ∧ bst = tx.bstatusRetxSize - pduSize cfg r + totalSize cfg retx -
        totalSize cfg next ∧ (∀ i, (heap i).sn = (tx.heap i).sn)) ∧
    s.sdu = r.sdu ∧ s.so = r.so ∧ s.addr = r.addr ∧
    (tx₁.retransmitList = next ∨ ∃ r', tx₁.retransmitList = r' :: next ∧ r'.sdu = r.sdu ∧
      r.so ≤ r'.so ∧ r'.so < r.so + r.size) := by
  unfold takeRetx at h
  simp only at h
  split at h
  · rename_i hbig
    unfold pduSize at hbig
    injection h with h1 h2
    subst h1 h2
    refine ⟨⟨_, _, _, _, rfl, ?_, ?_⟩, rfl, rfl, rfl, .inr ⟨_, rfl, rfl, ?_, ?_⟩⟩
    · rw [totalSize_cons]
      ring
    · intro i
      simp only [AmTx.addRef]
      by_cases hi : i = r.sdu
      · subst hi
        simp [resegment]
      · simp [resegment, hi]
    · simp only [resegment]
      omega
    · simp only [resegment]
      omega
  · injection h with h1 h2
    subst h1 h2
    refine ⟨⟨_, _, _, _, rfl, ?_, fun _ => rfl⟩, rfl, rfl, rfl, .inl rfl⟩
    ring

theorem takeRetx_snInv (h : tx.SnInv cfg []) (hr : tx.retransmitList = r :: next)
    (hsize : computePduHeaderSize cfg r < size) {tx₁ : AmTx} {s : Segment}
    (ht : takeRetx cfg tx r next size = (tx₁, s)) : tx₁.SnInv cfg [s] := by
  obtain ⟨⟨retx, bst, heap, seg, rfl, -, hheap⟩, hsdu, -, -, hretx⟩ :=
    takeRetx_spec cfg tx r next hsize ht
  -- every segment now has the SDU of one that was outstanding before
  have hold : ∀ x ∈ tx.waitList ++ retx ++ [s], ∃ y ∈ tx.outstanding ++ [], y.sdu = x.sdu := by
    intro x hx
    have hmem : ∀ y ∈ tx.waitList ++ r :: next, y ∈ tx.outstanding ++ [] := by
      simp [AmTx.outstanding, hr]
    simp only [List.mem_append, List.mem_singleton] at hx
    rcases hx with (hx | hx) | hx
    · exact ⟨x, hmem x (by simp [hx]), rfl⟩
    · rcases hretx with hretx | ⟨r', hretx, hr', -⟩
      · exact ⟨x, hmem x (by simp only at hretx; simp [← hretx, hx]), rfl⟩
      · simp only at hretx
        rw [hretx] at hx
        rcases List.mem_cons.mp hx with rfl | hx
        · exact ⟨r, hmem r (by simp), hr'.symm⟩
        · exact ⟨x, hmem x (by simp [hx]), rfl⟩
    · exact ⟨r, hmem r (by simp), by rw [hx, hsdu]⟩
  have hsneq : ∀ {x y : Segment}, y.sdu = x.sdu → tx.sn y = (heap x.sdu).sn := fun hxy => by
    rw [hheap, AmTx.sn, hxy]
  refine ⟨h.txNextAck_range, h.txNext_range, h.txNext_le, ?_, ?_, ?_, ?_, h.head_isLast, ?_,
    h.tail_whole, h.txEnd_eq, ?_⟩
  · intro x hx
    obtain ⟨y, hy, hyx⟩ := hold x hx
    simp only [AmTx.sn, ← hsneq hyx]
    exact h.sn_range y hy
  · intro x hx
    obtain ⟨y, hy, hyx⟩ := hold x hx
    simp only [AmTx.sn, ← hsneq hyx]
    exact h.sn_le y hy
  · intro x hx x' hx' heq
    obtain ⟨y, hy, hyx⟩ := hold x hx
    obtain ⟨y', hy', hyx'⟩ := hold x' hx'
    simp only [AmTx.sn, ← hsneq hyx, ← hsneq hyx'] at heq
    rw [← hyx, ← hyx']
    exact h.sn_inj y hy y' hy' heq
  · intro x hx heq
    obtain ⟨y, hy, hyx⟩ := hold x hx
    simp only [AmTx.sn, ← hsneq hyx] at heq
    rw [← hyx]
    exact h.unfinished y hy heq
  · intro x hx hf
    simp only [AmTx.sn, hheap]
    exact h.head_sn x hx hf
  · refine h.waitSorted.imp fun hxy => ?_
    simpa only [segLe, AmTx.sn, hheap] using hxy

/-- Giving an SDU its SN leaves its data and its counters alone. -/
theorem setSn_fields (heap : ℕ → Sdu) (j : ℕ) (sn : ℤ) (i : ℕ) :
    (Function.update heap j { heap j with sn := sn } i).data = (heap i).data ∧
      (Function.update heap j { heap j with sn := sn } i).refCount = (heap i).refCount ∧
      (Function.update heap j { heap j with sn := sn } i).freeCount = (heap i).freeCount := by
  by_cases hi : i = j
  · subst hi
    simp
  · simp [hi]

theorem takeTx_parts (h : tx.Parts lost) (hr : tx.txList = r :: next)
    (hsize : computePduHeaderSize cfg r < size) :
    (takeTx cfg tx r next size).1.Parts ((takeTx cfg tx r next size).2 :: lost) ∧
      (takeTx cfg tx r next size).1.heldSize = tx.heldSize := by
  have hperm : (r :: (next ++ tx.waitList ++ tx.retransmitList ++ lost) ++ tx.freed).Perm
      (tx.segments lost) := by
    simp only [AmTx.segments, hr]
    grind
  unfold takeTx
  simp only
  split
  · rename_i hbig
    refine h.split hperm hsize hbig ?_ rfl rfl ?_ ?_ ?_ rfl
    · simp only [AmTx.segments, AmTx.addRef]
      grind
    · intro i
      simp only [AmTx.addRef]
      by_cases hi : i = r.sdu
      · subst hi
        simp [resegment]
      · simp [resegment, hi]
    · intro i
      simp only [AmTx.addRef]
      by_cases hi : i = r.sdu
      · subst hi
        simp [resegment]
      · simp [resegment, hi, Ne.symm hi]
    · intro i
      simp only [AmTx.addRef]
      by_cases hi : i = r.sdu
      · subst hi
        simp [resegment]
      · simp [resegment, hi]
  · have hheap := setSn_fields tx.heap r.sdu tx.txNext
    refine ⟨h.of_perm ?_ rfl rfl (fun i => ⟨(hheap i).1, (hheap i).2.1⟩) ?_, ?_⟩
    · simp only [AmTx.segments, hr]
      grind
    · intro i hi
      simp only [(hheap i).2.2]
      exact h.freeCount_eq i hi
    · refine Finset.sum_congr rfl fun i _ => ?_
      simp [Sdu.heldSize, Sdu.isFreed, Sdu.size, hheap i]

/-- What `takeTx` leaves alone, and what the two parts have of the segment. -/
theorem takeTx_spec (cfg : AmConfig) (tx : AmTx) (r : Segment) (next : List Segment) {size : ℕ}
    {tx₁ : AmTx} {s : Segment}
    (h : takeTx cfg tx r next size = (tx₁, s)) :
    (∃ l e bst heap seg, tx₁ = { tx with
      txList := l
      txEnd := e
      bstatusTxSize := bst
      heap := heap
      nextSeg := seg } ∧ bst = tx.bstatusTxSize - pduSize cfg r + totalSize cfg l -
        totalSize cfg next ∧
      (∀ i, (heap i).sn = if i = r.sdu then tx.txNext else (tx.heap i).sn)) ∧
    s.sdu = r.sdu ∧ s.so = r.so ∧ s.addr = r.addr ∧
    ((s = r ∧ tx₁.txList = next ∧ tx₁.txEnd = if next.isEmpty then none else tx.txEnd) ∨
      (s.isLast = false ∧ ∃ r', tx₁.txList = r' :: next ∧ r'.sdu = r.sdu ∧
        r'.isFirst = false ∧ r'.isLast = r.isLast ∧
        tx₁.txEnd = if next.isEmpty ∨ tx.txEnd = none then some r'.addr else tx.txEnd)) := by
  have hsn : ∀ i, (Function.update tx.heap r.sdu { tx.heap r.sdu with sn := tx.txNext } i).sn =
      if i = r.sdu then tx.txNext else (tx.heap i).sn := by
    intro i
    by_cases hi : i = r.sdu
    · subst hi
      simp
    · simp [hi]
  unfold takeTx at h
  simp only at h
  split at h
  · injection h with h1 h2
    subst h1 h2
    refine ⟨⟨_, _, _, _, _, rfl, ?_, ?_⟩, rfl, rfl, rfl,
      .inr ⟨rfl, _, rfl, rfl, rfl, rfl, ?_⟩⟩
    · rw [totalSize_cons]
      ring
    · intro i
      simp only [AmTx.addRef]
      by_cases hi : i = r.sdu
      · subst hi
        simp [resegment]
      · simp [resegment, hi]
    · cases next <;> cases tx.txEnd <;> simp
  · injection h with h1 h2
    subst h1 h2
    refine ⟨⟨_, _, _, _, _, rfl, ?_, hsn⟩, rfl, rfl, rfl, .inl ⟨rfl, rfl, rfl⟩⟩
    ring

/-- There is room in the transmit window. -/
theorem rel_lt_of_not_stalling (h : tx.SnInv cfg []) (hw : isWindowStalling cfg tx = false) :
    rel cfg.snModulus tx.txNextAck tx.txNext < cfg.windowSize := by
  have hM := cfg.snModulus_eq
  have hW := cfg.windowSize_pos
  have hend : rel cfg.snModulus tx.txNextAck (tx.txNextAck + cfg.windowSize) = cfg.windowSize := by
    rw [rel_eq_sub (by omega) (by omega)]
    ring
  unfold isWindowStalling at hw
  rw [Bool.not_eq_false', Bool.and_eq_true, decide_eq_true_eq, decide_eq_true_eq,
    snCompareTx_eq h.txNextAck_range h.txNext_range
      ⟨Int.emod_nonneg _ (by omega), Int.emod_lt_of_pos _ cfg.snModulus_pos⟩, rel_emod, hend] at hw
  omega

/-- The SN that is given to the head of `tx_list` is new, or the SDU has it already. -/
theorem sn_takeTx (h : tx.SnInv cfg []) (hparts : tx.Parts lost) (hr : tx.txList = r :: next)
    {heap : ℕ → Sdu} (hheap : ∀ i, (heap i).sn = if i = r.sdu then tx.txNext else (tx.heap i).sn) :
    ∀ x ∈ tx.outstanding, (heap x.sdu).sn = tx.sn x := by
  intro x hx
  rw [hheap]
  split
  · rename_i hsdu
    have hx' : x ∈ tx.segments lost := by
      simp only [AmTx.outstanding, List.mem_append] at hx
      rcases hx with hx | hx <;> simp [AmTx.segments, hx]
    have hr' : r ∈ tx.segments lost := by simp [AmTx.segments, hr]
    cases hf : r.isFirst with
    | false =>
        have := h.head_sn r (by rw [hr]; rfl) hf
        rw [← this, AmTx.sn, AmTx.sn, hsdu]
    | true =>
        -- a whole SDU has no other segment
        exfalso
        have hlast := h.head_isLast r (by rw [hr]; rfl)
        have heq := hparts.eq_of_whole hr' hx' hsdu hf hlast
        subst heq
        have hnd := hparts.addr_nodup
        simp only [AmTx.segments, hr, List.map_append, List.map_cons, List.append_assoc,
          List.cons_append, List.nodup_cons] at hnd
        apply hnd.1
        simp only [AmTx.outstanding, List.mem_append] at hx
        rcases hx with hx | hx
        · simp [List.mem_map_of_mem hx]
        · simp [List.mem_map_of_mem hx]
  · rfl

/-- **The head of `tx_list` is sent.** -/
theorem takeTx_snInv (h : tx.SnInv cfg []) (hparts : tx.Parts lost) (hr : tx.txList = r :: next)
    (hsize : computePduHeaderSize cfg r < size) (hw : isWindowStalling cfg tx = false)
    {tx₁ : AmTx} {s : Segment} (ht : takeTx cfg tx r next size = (tx₁, s)) :
    (raiseTxNext cfg tx₁ s).SnInv cfg [s] := by
  have hM := cfg.snModulus_pos
  have hMW := cfg.snModulus_eq
  have hW := cfg.windowSize_pos
  have hroom := rel_lt_of_not_stalling h hw
  have hnn := rel_nonneg hM tx.txNextAck tx.txNext
  have hhead : tx.txList.head? = some r := by rw [hr]; rfl
  obtain ⟨⟨l, e, bst, heap, seg, rfl, -, hheap⟩, hsdu, -, -, hcases⟩ :=
    takeTx_spec cfg tx r next ht
  have hold := sn_takeTx h hparts hr hheap
  have hssn : (heap s.sdu).sn = tx.txNext := by rw [hheap, if_pos hsdu]
  have hmem : ∀ {x}, x ∈ tx.outstanding → x ∈ tx.outstanding ++ [] := fun hx => by simpa using hx
  -- the facts that hold in both cases
  have hrange : ∀ x ∈ tx.outstanding ++ [s], 0 ≤ (heap x.sdu).sn ∧
      (heap x.sdu).sn < cfg.snModulus := by
    intro x hx
    rcases List.mem_append.mp hx with hx | hx
    · rw [hold x hx]
      exact h.sn_range x (hmem hx)
    · rw [List.mem_singleton.mp hx, hssn]
      exact h.txNext_range
  have hle : ∀ x ∈ tx.outstanding ++ [s], rel cfg.snModulus tx.txNextAck (heap x.sdu).sn ≤
      rel cfg.snModulus tx.txNextAck tx.txNext := by
    intro x hx
    rcases List.mem_append.mp hx with hx | hx
    · rw [hold x hx]
      exact h.sn_le x (hmem hx)
    · rw [List.mem_singleton.mp hx, hssn]
  have hown : ∀ x ∈ tx.outstanding ++ [s], (heap x.sdu).sn = tx.txNext → x.sdu = r.sdu := by
    intro x hx heq
    rcases List.mem_append.mp hx with hx | hx
    · rw [hold x hx] at heq
      obtain ⟨y, hy, hyx, -⟩ := h.unfinished x (hmem hx) heq
      rw [hhead, Option.some.injEq] at hy
      rw [← hyx, hy]
    · rw [List.mem_singleton.mp hx, hsdu]
  have hinj : ∀ x ∈ tx.outstanding ++ [s], ∀ y ∈ tx.outstanding ++ [s],
      (heap x.sdu).sn = (heap y.sdu).sn → x.sdu = y.sdu := by
    intro x hx y hy heq
    by_cases hn : (heap x.sdu).sn = tx.txNext
    · rw [hown x hx hn, hown y hy (heq ▸ hn)]
    · rcases List.mem_append.mp hx with hx' | hx'
      · rcases List.mem_append.mp hy with hy' | hy'
        · rw [hold x hx', hold y hy'] at heq
          exact h.sn_inj x (hmem hx') y (hmem hy') heq
        · rw [List.mem_singleton.mp hy', hssn] at heq
          exact absurd heq hn
      · rw [List.mem_singleton.mp hx'] at hn
        exact absurd hssn hn
  have hsorted : tx.waitList.Pairwise
      (segLe cfg.snModulus tx.txNextAck fun x => (heap x.sdu).sn) := by
    refine h.waitSorted.imp_of_mem fun {a b} ha hb hab => ?_
    simp only [segLe]
    rw [hold a (by simp [AmTx.outstanding, ha]), hold b (by simp [AmTx.outstanding, hb])]
    exact hab
  have hwhole : ∀ x ∈ next, x.isFirst = true ∧ x.isLast = true := by
    have := h.tail_whole
    rw [hr] at this
    exact this
  have hend := h.txEnd_eq
  rw [hr] at hend
  rcases hcases with ⟨rfl, hl, he⟩ | ⟨hs, r', hl, hr'sdu, hr'f, hr'l, he⟩
  · -- the SDU is sent to its end
    simp only at hl he
    have hsucc : rel cfg.snModulus tx.txNextAck ((tx.txNext + 1) % cfg.snModulus) =
        rel cfg.snModulus tx.txNextAck tx.txNext + 1 := rel_succ hM (by omega)
    rw [raiseTxNext, if_pos (h.head_isLast _ hhead)]
    refine ⟨h.txNextAck_range, ⟨Int.emod_nonneg _ hM.ne', Int.emod_lt_of_pos _ hM⟩, ?_, hrange,
      ?_, hinj, ?_, ?_, ?_, ?_, ?_, hsorted⟩
    · simp only [hsucc]
      omega
    · intro x hx
      have := hle x hx
      simp only [hsucc]
      exact this.trans (by omega)
    · intro x hx heq
      have := hle x hx
      simp only [AmTx.sn] at heq
      rw [heq, hsucc] at this
      omega
    · intro x hx
      simp only [hl] at hx
      exact (hwhole x (List.mem_of_head? hx)).2
    · intro x hx hf
      simp only [hl] at hx
      rw [(hwhole x (List.mem_of_head? hx)).1] at hf
      cases hf
    · intro x hx
      simp only [hl] at hx
      exact hwhole x (List.mem_of_mem_tail hx)
    · simp only [hl, he, hend]
      cases next <;> simp
  · -- a rest of the SDU stays in `tx_list`
    simp only at hl he
    have hr'sn : (heap r'.sdu).sn = tx.txNext := by rw [hheap, if_pos hr'sdu]
    rw [raiseTxNext, if_neg (by simp [hs])]
    refine ⟨h.txNextAck_range, h.txNext_range, h.txNext_le, hrange, hle, hinj, ?_, ?_, ?_, ?_, ?_,
      hsorted⟩
    · intro x hx heq
      simp only [hl]
      exact ⟨r', rfl, by rw [hr'sdu, hown x hx heq], hr'f⟩
    · intro x hx
      simp only [hl, List.head?_cons, Option.some.injEq] at hx
      rw [← hx, hr'l]
      exact h.head_isLast r hhead
    · intro x hx _
      simp only [hl, List.head?_cons, Option.some.injEq] at hx
      rw [← hx]
      exact hr'sn
    · intro x hx
      simp only [hl] at hx
      exact hwhole x hx
    · simp only [hl, he, hend]
      cases next <;> simp

end Take

end OaiCu.NrRlc
