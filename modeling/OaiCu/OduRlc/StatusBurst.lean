import OaiCu.OduRlc.StatusSound

/-!
# A burst of losses

While every run of losses has fewer than 255 of them, the STATUS is sound. A run that fills an
entry is followed by a place of the array whose SN nobody sets, so the entry there speaks of
SN 0 and of one SN more than it should. That is sound in one case only: SN 0 comes next, and the
SN that is counted too much has lost something behind the end of the run.
-/

namespace OaiCu.OduRlc

/-- The structure is built, and it says what is missing. -/
def RlcAmUl.ReportsLosses (amUl : RlcAmUl) : Prop :=
  ∃ sta, rlcAmmUlAssembleCntrlInfo amUl = some sta ∧ StatusSound amUl sta

/-- No run fills an entry, and there is a place for every run. -/
structure RlcAmUl.ShortRuns (amUl : RlcAmUl) : Prop where
  short : ∀ run ∈ runs amUl, run.length < 255
  fits : (runs amUl).length ≤ RLC_MAX_NACK_CNT

section

variable {amUl : RlcAmUl}

theorem stands_of_forall₂ {es : List RlcNackInfo} {part : List (List Loss)}
    (hf : List.Forall₂ IsEntry es part) (hm : ∀ run ∈ part, run ∈ runs amUl)
    (hs : ∀ run ∈ part, run.length < 255) : List.Forall₂ (Stands amUl) es part :=
  Lists.forall₂_imp_of_mem hf fun _ run hr h =>
    h.stands (isRun_of_mem (hm run hr) (hs run hr).le) (subset_losses (hm run hr))

theorem entryBefore_of_forall₂ {es : List RlcNackInfo} {part : List (List Loss)}
    (hf : List.Forall₂ IsEntry es part) (hm : part.Sublist (runs amUl))
    (hs : ∀ run ∈ part, run.length < 255) : es.Pairwise amUl.EntryBefore := by
  refine Lists.pairwise_of_forall₂ hf ((runs_pairwise amUl).sublist hm) ?_
  intro e e' run run' hr hr' h h' hb
  exact entryBefore_of_lossBefore h (isRun_of_mem (hm.subset hr) (hs run hr).le) h' hb

/-- **Short runs are reported.** -/
theorem reportsLosses_of_shortRuns (h : amUl.ShortRuns) : amUl.ReportsLosses := by
  obtain ⟨es, hf, he⟩ := entries_losses (List.append_nil (runs amUl)).symm h.short
  rw [List.flatten_nil, entries, List.append_nil] at he
  have hfit : (entries amUl.snLen (losses amUl)).length ≤ RLC_MAX_NACK_CNT := by
    rw [he, hf.length_eq]
    exact h.fits
  obtain ⟨sta, hs, -, hn, hack⟩ := assemble_eq_some hfit
  rw [he] at hn
  refine ⟨sta, hs, statusSound_of_stands hack ?_ (flatten_runs amUl) ?_⟩
  · rw [hn]
    exact stands_of_forall₂ hf (fun _ => id) h.short
  · rw [hn]
    exact entryBefore_of_forall₂ hf (List.Sublist.refl _) h.short

end

/-! ## What a sound STATUS tells about its entries -/

theorem entriesFrom_head (snLen : SnLen) (cur : RlcNackInfo) (prev : ℕ) (ls : List Loss) :
    ∃ y ys, entriesFrom snLen cur prev ls = y :: ys ∧ y.sn = cur.sn ∧ y.soStart ≤ cur.soStart := by
  induction ls generalizing cur prev with
  | nil => exact ⟨cur, [], rfl, rfl, le_rfl⟩
  | cons loss ls ih =>
    rw [entriesFrom]
    have h1 : (cur.countSn.moveEnd loss).sn = cur.sn := join_sn cur loss
    have h2 : (cur.countSn.moveEnd loss).soStart ≤ cur.soStart := join_soStart_le cur loss
    split_ifs
    · exact ⟨_, _, rfl, rfl, le_rfl⟩
    · exact ⟨_, _, rfl, h1, h2⟩
    · obtain ⟨y, ys, e, hy, hy'⟩ := ih (cur.countSn.moveEnd loss) loss.sn
      exact ⟨y, ys, e, hy.trans h1, hy'.trans h2⟩

/-- From a cleared place on the entries start with one of SN 0. -/
theorem entriesFrom_clear (snLen : SnLen) (prev : ℕ) (ls : List Loss) :
    ∃ y ys, entriesFrom snLen {} prev ls = y :: ys ∧ y.sn = 0 ∧ y.soStart = 0 := by
  obtain ⟨y, ys, h, h0, h1⟩ := entriesFrom_head snLen {} prev ls
  exact ⟨y, ys, h, h0, Nat.le_zero.1 h1⟩

theorem entriesFrom_sn_lt {snLen : SnLen} (cur : RlcNackInfo) (prev : ℕ) {ls : List Loss}
    (hc : cur.sn < snLen.modulus) (hls : ∀ loss ∈ ls, loss.sn < snLen.modulus) :
    ∀ e ∈ entriesFrom snLen cur prev ls, e.sn < snLen.modulus := by
  induction ls generalizing cur prev with
  | nil => simpa [entriesFrom] using hc
  | cons loss ls ih =>
    have hls' : ∀ l ∈ ls, l.sn < snLen.modulus := fun l hl => hls l (.tail _ hl)
    have h1 : (cur.countSn.moveEnd loss).sn < snLen.modulus := (join_sn cur loss).symm ▸ hc
    rw [entriesFrom]
    split_ifs
    · exact List.forall_mem_cons.2 ⟨hc, ih _ _ (hls loss (.head _)) hls'⟩
    · exact List.forall_mem_cons.2 ⟨h1, ih _ _ snLen.modulus_pos hls'⟩
    · exact ih _ _ h1 hls'

section

variable {amUl : RlcAmUl} {sta : RlcUdxDlStaPdu} {e e' : RlcNackInfo}

theorem RlcNackInfo.one_le_count (e : RlcNackInfo) : 1 ≤ e.count := Nat.le_max_right _ _

/-- The SNs of an entry lie one after the other between `rxNext` and `ackSn`. -/
theorem StatusSound.pos_add (hs : StatusSound amUl sta) (he : e ∈ sta.nacks)
    (hsn : e.sn < amUl.snLen.modulus) (hack : sta.ackSn = amUl.rxHighestStatus) {k : ℕ}
    (hk : k < e.count) :
    k < amUl.snLen.modulus ∧ amUl.pos ((e.sn + k) % amUl.snLen.modulus) = amUl.pos e.sn + k ∧
      amUl.pos e.sn + k < amUl.high := by
  have hM := amUl.snLen.modulus_pos
  have hin : ∀ k < amUl.snLen.modulus, k < e.count →
      amUl.pos ((e.sn + k) % amUl.snLen.modulus) < amUl.high := by
    intro k hk hk'
    have := (hs.needed e he _ (Nat.mod_lt (e.sn + k) hM) (by
      rw [RlcNackInfo.CoversSn, offset_add hsn hk]
      exact hk')).1
    rwa [hack] at this
  induction k with
  | zero =>
    have h0 := hin 0 hM hk
    have e0 : (e.sn + 0) % amUl.snLen.modulus = e.sn := by rw [Nat.add_zero, Nat.mod_eq_of_lt hsn]
    rw [e0] at h0 ⊢
    rw [Nat.add_zero (amUl.pos e.sn)]
    exact ⟨hM, rfl, h0⟩
  | succ k ih =>
    obtain ⟨h1, h2, h3⟩ := ih (by omega)
    have h4 := amUl.high_lt
    have h5 : k + 1 < amUl.snLen.modulus := by omega
    have h6 : amUl.pos ((e.sn + k) % amUl.snLen.modulus) + 1 < amUl.snLen.modulus := by
      rw [h2]
      omega
    have h7 := RlcAmUl.pos_succ (Nat.mod_lt (e.sn + k) hM) h6
    rw [Nat.mod_add_mod, Nat.add_assoc, h2, Nat.add_assoc] at h7
    have h8 := hin (k + 1) h5 hk
    rw [h7] at h8
    exact ⟨h5, h7, h8⟩

theorem StatusSound.pos_lastSn (hs : StatusSound amUl sta) (he : e ∈ sta.nacks)
    (hsn : e.sn < amUl.snLen.modulus) (hack : sta.ackSn = amUl.rxHighestStatus) :
    amUl.pos (e.lastSn amUl.snLen) = amUl.pos e.sn + (e.count - 1) := by
  have := e.one_le_count
  exact (hs.pos_add he hsn hack (show e.count - 1 < e.count by omega)).2.1

theorem StatusSound.pos_le_of_coversSn (hs : StatusSound amUl sta) (he : e ∈ sta.nacks)
    (hsn : e.sn < amUl.snLen.modulus) (hack : sta.ackSn = amUl.rxHighestStatus) {sn : ℕ}
    (h : sn < amUl.snLen.modulus) (hc : e.CoversSn amUl.snLen sn) : amUl.pos e.sn ≤ amUl.pos sn := by
  have hp := (hs.pos_add he hsn hack hc).2.1
  rw [add_offset hsn h] at hp
  omega

/-- Of every SN of an entry something is lost. -/
theorem StatusSound.exists_loss (hs : StatusSound amUl sta) (he : e ∈ sta.nacks)
    (hack : sta.ackSn = amUl.rxHighestStatus) {sn : ℕ} (hsn : sn < amUl.snLen.modulus)
    (hc : e.CoversSn amUl.snLen sn) : ∃ loss ∈ losses amUl, loss.sn = sn := by
  obtain ⟨h1, h2⟩ := hs.needed e he sn hsn hc
  rw [hack] at h1
  exact (not_fullyReceived_iff hsn h1).1 h2

/-- The SNs of a later entry are not before those of an earlier one. -/
theorem RlcAmUl.EntryBefore.pos_le (h : amUl.EntryBefore e e') :
    amUl.pos (e.lastSn amUl.snLen) ≤ amUl.pos e'.sn := by
  rcases h with h | ⟨h, -⟩
  · exact h.le
  · exact le_of_eq (congrArg _ h)

/-- Before an entry that starts at offset zero an entry ends with an earlier SN. -/
theorem RlcAmUl.EntryBefore.pos_lt (h : amUl.EntryBefore e e') (h0 : e'.soStart = 0) :
    amUl.pos (e.lastSn amUl.snLen) < amUl.pos e'.sn := by
  rcases h with h | ⟨-, -, -, h⟩
  · exact h
  · omega

theorem RlcAmUl.LossBefore.pos_le {loss loss' : Loss} (h : amUl.LossBefore loss loss') :
    amUl.pos loss.sn ≤ amUl.pos loss'.sn := by
  rcases h with h | ⟨h, -⟩
  · exact h.le
  · exact le_of_eq (congrArg _ h)

end

/-! ## The first run that fills an entry -/

/-- The first run with 255 losses or more: `full` fills an entry, `rest` follows in the same
run. -/
structure Burst (amUl : RlcAmUl) (pre : List (List Loss)) (full rest : List Loss)
    (post : List (List Loss)) : Prop where
  runs_eq : runs amUl = pre ++ (full ++ rest) :: post
  short : ∀ run ∈ pre, run.length < 255
  length : full.length = 255

theorem exists_burst {amUl : RlcAmUl} (h : ∃ run ∈ runs amUl, 255 ≤ run.length) :
    ∃ pre full rest post, Burst amUl pre full rest post := by
  obtain ⟨pre, run, post, e, hr, hpre⟩ := Lists.exists_first h
  refine ⟨pre, run.take 255, run.drop 255, post, ?_, fun r hr' => not_le.1 (hpre r hr'), ?_⟩
  · rw [List.take_append_drop, e]
  · rw [List.length_take, min_eq_left hr]

namespace Burst

variable {amUl : RlcAmUl} {pre post : List (List Loss)} {full rest : List Loss}
  (b : Burst amUl pre full rest post)

include b

theorem mem_runs : full ++ rest ∈ runs amUl := by
  rw [b.runs_eq]
  simp

theorem full_ne : full ≠ [] := fun h => by simpa [h] using b.length

theorem chain : (full ++ rest).IsChain fun x y => joins amUl.snLen x y = true :=
  List.isChain_of_mem_splitBy b.mem_runs

theorem isRun_full : IsRun amUl.snLen full :=
  isRun_of_subset (List.isChain_append.1 b.chain).1
    (fun _ h => subset_losses b.mem_runs (List.mem_append_left _ h)) b.length.le

theorem losses_eq : losses amUl = (pre.flatten ++ full) ++ (rest ++ post.flatten) := by
  rw [← flatten_runs, b.runs_eq]
  simp

theorem mem_losses_behind {loss : Loss} (h : loss ∈ rest ++ post.flatten) : loss ∈ losses amUl := by
  rw [b.losses_eq]
  exact List.mem_append_right _ h

theorem sn_lt : ∀ loss ∈ rest ++ post.flatten, loss.sn < amUl.snLen.modulus :=
  fun _ h => losses_sn_lt (b.mem_losses_behind h)

theorem pos_le_last {loss : Loss} (h : loss ∈ pre.flatten ++ full) :
    amUl.pos loss.sn ≤ amUl.pos (full.getLast b.full_ne).sn := by
  have hp := losses_pairwise amUl
  rw [b.losses_eq, List.pairwise_append] at hp
  have hl : (pre.flatten ++ full).getLast? = some (full.getLast b.full_ne) := by
    rw [List.getLast?_append_of_ne_nil _ b.full_ne, List.getLast?_eq_some_getLast b.full_ne]
  obtain ⟨init, e⟩ := List.getLast?_eq_some_iff.1 hl
  rw [e, List.mem_append, List.mem_singleton] at h
  rcases h with h | rfl
  · have hp1 := hp.1
    rw [e, List.pairwise_append] at hp1
    exact (hp1.2.2 loss h _ (List.mem_singleton_self _)).pos_le
  · exact le_rfl

theorem entries_eq :
    ∃ es e, List.Forall₂ IsEntry es pre ∧ IsEntry e full ∧
      entries amUl.snLen (losses amUl) =
        es ++ e :: entriesFrom amUl.snLen {} (full.getLast b.full_ne).sn (rest ++ post.flatten) := by
  obtain ⟨es, hf, he⟩ := entries_losses b.runs_eq b.short
  obtain ⟨e, hi, he'⟩ := entries_burst (rest ++ post.flatten) b.full_ne b.isRun_full.chain
    b.isRun_full.sn_lt b.length
  refine ⟨es, e, hf, hi, ?_⟩
  rw [he, List.flatten_cons, List.append_assoc, he']

/-- The next run does not go on with the last loss. -/
theorem not_joins_post {loss : Loss} (h : post.flatten.head? = some loss)
    (hne : full ++ rest ≠ []) : joins amUl.snLen ((full ++ rest).getLast hne) loss = false := by
  have hb := List.isChain_getLast_head_splitBy (joins amUl.snLen) (losses amUl)
  rw [← runs, b.runs_eq, List.isChain_append] at hb
  cases post with
  | nil => cases h
  | cons next post =>
    obtain ⟨_, hne', e⟩ := (List.isChain_cons_cons.1 hb.2.1).1
    rw [List.flatten_cons, List.head?_append_of_ne_nil _ hne', List.head?_eq_some_head hne'] at h
    exact Option.some.inj h ▸ e

variable {sta : RlcUdxDlStaPdu} (hs : StatusSound amUl sta)
  (hn : sta.nacks = entries amUl.snLen (losses amUl)) (hack : sta.ackSn = amUl.rxHighestStatus)

include hs hn hack

/-- The place behind the full entry speaks of SN 0, so SN 0 comes later and something of it is
lost. -/
theorem zero_later :
    amUl.pos (full.getLast b.full_ne).sn < amUl.pos 0 ∧
      ∃ loss ∈ rest ++ post.flatten, loss.sn = 0 := by
  obtain ⟨es, e, -, hi, he⟩ := b.entries_eq
  obtain ⟨y, ys, hy, hy0, hy1⟩ :=
    entriesFrom_clear amUl.snLen (full.getLast b.full_ne).sn (rest ++ post.flatten)
  have hM : y.sn < amUl.snLen.modulus := hy0 ▸ amUl.snLen.modulus_pos
  rw [hy] at he
  have ho := hs.ordered
  rw [hn, he, List.pairwise_append] at ho
  have hlt : amUl.pos (full.getLast b.full_ne).sn < amUl.pos 0 := by
    have h := ((List.pairwise_cons.1 ho.2.1).1 y (.head _)).pos_lt hy1
    rwa [hi.lastSn b.isRun_full b.full_ne, hy0] at h
  have hmem : y ∈ sta.nacks := by
    rw [hn, he]
    simp
  obtain ⟨loss, hl, e0⟩ := hs.exists_loss hmem hack hM (coversSn_self hM)
  refine ⟨hlt, loss, ?_, e0.trans hy0⟩
  rw [b.losses_eq, List.mem_append] at hl
  refine hl.resolve_left fun hl => ?_
  have := b.pos_le_last hl
  rw [e0, hy0] at this
  exact absurd hlt (not_lt.2 this)

/-- An entry that speaks of a loss behind the full entry does not start before SN 0. -/
theorem pos_zero_le {loss : Loss} (hl : loss ∈ rest ++ post.flatten)
    (hlt : amUl.pos (full.getLast b.full_ne).sn < amUl.pos loss.sn) :
    amUl.pos 0 ≤ amUl.pos loss.sn := by
  have hin := b.mem_losses_behind hl
  obtain ⟨hsn, hpos, hmem⟩ := mem_losses_iff.1 hin
  obtain ⟨-, h1, h2⟩ := mem_lossesSn hmem
  have hmiss : amUl.Missing loss.sn loss.soStart :=
    (missing_iff hsn hpos).2 ⟨h1.trans h2, loss, hin, rfl, fun _ => ⟨le_rfl, h1⟩⟩
  obtain ⟨e', he', hc⟩ := hs.covered loss.sn hsn (hack ▸ hpos) _ hmiss
  obtain ⟨es, e, hf, hi, he⟩ := b.entries_eq
  obtain ⟨y, ys, hy, hy0, -⟩ :=
    entriesFrom_clear amUl.snLen (full.getLast b.full_ne).sn (rest ++ post.flatten)
  have hM : y.sn < amUl.snLen.modulus := hy0 ▸ amUl.snLen.modulus_pos
  have htail := entriesFrom_sn_lt {} (full.getLast b.full_ne).sn amUl.snLen.modulus_pos b.sn_lt
  rw [hy] at he htail
  have hnacks : sta.nacks = es ++ e :: y :: ys := hn.trans he
  have hymem : y ∈ sta.nacks := by simp [hnacks]
  rw [hnacks] at he'
  rcases List.mem_append.1 he' with he' | he'
  · obtain ⟨run, hrun, hi'⟩ := Lists.exists_of_mem_left hf he'
    have hr : run ∈ runs amUl := b.runs_eq ▸ List.mem_append_left _ hrun
    obtain ⟨loss', hl', e1⟩ := (hi'.coversSn_iff (isRun_of_mem hr (b.short run hrun).le) hsn).1 hc.1
    have := b.pos_le_last (List.mem_append_left full (List.mem_flatten_of_mem hrun hl'))
    rw [e1] at this
    omega
  rcases List.mem_cons.1 he' with rfl | he'
  · obtain ⟨loss', hl', e1⟩ := (hi.coversSn_iff b.isRun_full hsn).1 hc.1
    have := b.pos_le_last (List.mem_append_right pre.flatten hl')
    rw [e1] at this
    omega
  rcases List.mem_cons.1 he' with rfl | he'
  · rw [← hy0]
    exact hs.pos_le_of_coversSn hymem hM hack hsn hc.1
  · have hmem' : e' ∈ sta.nacks := by simp [hnacks, he']
    have h3 := hs.pos_le_of_coversSn hmem' (htail e' (.tail _ he')) hack hsn hc.1
    have ho := hs.ordered
    rw [hnacks, List.pairwise_append] at ho
    have h4 := ((List.pairwise_cons.1 (List.pairwise_cons.1 ho.2.1).2).1 e' he').pos_le
    rw [hs.pos_lastSn hymem hM hack, hy0] at h4
    omega

/-- The loss behind the full entry is one of SN 0. -/
theorem next_zero :
    ∃ loss ls, rest ++ post.flatten = loss :: ls ∧ loss.sn = 0 ∧
      joins amUl.snLen (full.getLast b.full_ne) loss = true := by
  obtain ⟨hlt, loss0, hl0, e0⟩ := b.zero_later hs hn hack
  obtain ⟨es, e, hf, hi, he⟩ := b.entries_eq
  have hM := amUl.snLen.modulus_pos
  have ha : (full.getLast b.full_ne).sn < amUl.snLen.modulus :=
    b.isRun_full.sn_lt _ (List.getLast_mem _)
  cases hX : rest ++ post.flatten with
  | nil => simp [hX] at hl0
  | cons loss ls =>
    refine ⟨loss, ls, rfl, ?_⟩
    have hmem : loss ∈ rest ++ post.flatten := by simp [hX]
    have ho := hs.ordered
    -- no loss stands before `loss`, the one of SN 0 neither
    have hle : amUl.pos loss.sn ≤ amUl.pos 0 := by
      rw [hX] at hl0
      rcases List.mem_cons.1 hl0 with rfl | hl0
      · exact le_of_eq (congrArg _ e0)
      · have hp := losses_pairwise amUl
        rw [b.losses_eq, hX, List.pairwise_append] at hp
        have h := ((List.pairwise_cons.1 hp.2.1).1 loss0 hl0).pos_le
        rwa [e0] at h
    by_cases hadj : ((full.getLast b.full_ne).sn + 1) % amUl.snLen.modulus = loss.sn
    · -- the missing byte of `loss` can only be in the entry that speaks of SN 0
      have hpos : amUl.pos loss.sn = amUl.pos (full.getLast b.full_ne).sn + 1 := by
        have h1 : amUl.pos (full.getLast b.full_ne).sn + 1 < amUl.snLen.modulus := by
          have := amUl.pos_lt hM
          omega
        rw [← hadj, RlcAmUl.pos_succ ha h1]
      have hzero : loss.sn = 0 := by
        have := b.pos_zero_le hs hn hack hmem (by omega)
        refine RlcAmUl.eq_of_pos_eq (b.sn_lt loss hmem) hM ?_
        omega
      refine ⟨hzero, ?_⟩
      simp only [joins, hadj, beq_self_eq_true, Bool.true_and, hzero]
      simp
    · -- the place is left clear, and the next entry starts with `loss`
      have hclear : startsEntry amUl.snLen.snModMask {} (full.getLast b.full_ne).sn loss = true := by
        rw [startsEntry_clear ha]
        simpa using hadj
      obtain ⟨y, ys, hy, hy0, -⟩ := entriesFrom_head amUl.snLen loss.entry loss.sn ls
      rw [hX, entriesFrom, if_pos hclear, hy] at he
      rw [hn, he, List.pairwise_append] at ho
      have h := (List.pairwise_cons.1 (List.pairwise_cons.1 ho.2.1).2).1 y (.head _)
      have hlast : ({} : RlcNackInfo).lastSn amUl.snLen = 0 := Nat.zero_mod _
      rcases h with h | ⟨-, h, -⟩
      · rw [hlast, hy0] at h
        exact absurd h (not_lt.2 hle)
      · cases h

end Burst

end OaiCu.OduRlc
