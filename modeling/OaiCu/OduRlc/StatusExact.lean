import OaiCu.OduRlc.StatusBurst

/-!
# When the STATUS is sound

The losses behind a full entry go to a place of the array that has no SN. `Rescued` is the
coincidence in which the STATUS is sound all the same, and `reportsLosses_iff` says that there
is no other.
-/

namespace OaiCu.OduRlc

/-! ## The entry in a cleared place -/

section

variable (e : RlcNackInfo) (ls : List Loss)

theorem foldl_join_sn : (ls.foldl RlcNackInfo.join e).sn = e.sn := by
  induction ls generalizing e with
  | nil => rfl
  | cons loss ls ih => rw [List.foldl_cons, ih, join_sn]

theorem foldl_join_count : (ls.foldl RlcNackInfo.join e).count = e.count + ls.length := by
  induction ls generalizing e with
  | nil => rfl
  | cons loss ls ih =>
    rw [List.foldl_cons, ih, join_count, List.length_cons]
    omega

theorem foldl_join_soStart_le : (ls.foldl RlcNackInfo.join e).soStart ≤ e.soStart := by
  induction ls generalizing e with
  | nil => exact le_rfl
  | cons loss ls ih => exact (ih _).trans (join_soStart_le e loss)

theorem endsWith_foldl_join (hne : ls ≠ []) :
    EndsWith (ls.foldl RlcNackInfo.join e) (ls.getLast hne) := by
  induction ls using List.reverseRecOn with
  | nil => exact absurd rfl hne
  | append_singleton ls loss _ =>
    rw [List.foldl_append, List.getLast_append_singleton]
    exact endsWith_join _ _

end

/-- The entry that losses get in a cleared place. -/
def clearEntry (rest : List Loss) : RlcNackInfo := rest.foldl RlcNackInfo.join {}

theorem clearEntry_sn (rest : List Loss) : (clearEntry rest).sn = 0 := foldl_join_sn _ _

theorem clearEntry_count (rest : List Loss) : (clearEntry rest).count = rest.length + 1 := by
  rw [clearEntry, foldl_join_count, Nat.add_comm]
  rfl

theorem clearEntry_soStart (rest : List Loss) : (clearEntry rest).soStart = 0 :=
  Nat.le_zero.1 (foldl_join_soStart_le _ _)

section

variable {snLen : SnLen} {prev first : Loss} {rest ls : List Loss}

/-- The first loss that goes to a cleared place. -/
theorem entriesFrom_clear_cons (hp : prev.sn < snLen.modulus)
    (hj : (prev.sn + 1) % snLen.modulus = first.sn) :
    entriesFrom snLen {} prev.sn (first :: ls) =
      entriesFrom snLen (clearEntry [first]) first.sn ls := by
  have hs : startsEntry snLen.snModMask {} prev.sn first = false := by
    rw [startsEntry_clear hp, hj]
    simp
  rw [entriesFrom, if_neg (by simp [hs]), if_neg (by decide)]
  rfl

variable (hp : prev.sn < snLen.modulus) (hj : (prev.sn + 1) % snLen.modulus = first.sn)
  (hc : (first :: rest).IsChain fun x y => joins snLen x y = true)
  (hlt : ∀ loss ∈ first :: rest, loss.sn < snLen.modulus)

include hp hj hc hlt

/-- Losses that join in a cleared place and do not fill the entry. -/
theorem entriesFrom_clear_short (hn : (first :: rest).length < 254)
    (hb : ∀ loss, ls.head? = some loss →
      joins snLen ((first :: rest).getLast (List.cons_ne_nil _ _)) loss = false) :
    entriesFrom snLen {} prev.sn (first :: rest ++ ls) =
      clearEntry (first :: rest) :: entries snLen ls := by
  have h1 : EndsWith (clearEntry [first]) first := endsWith_join _ _
  have h2 := endsWith_foldl_join {} (first :: rest) (List.cons_ne_nil _ _)
  have h3 := clearEntry_count [first]
  simp only [List.length_cons, List.length_nil] at hn h3
  rw [List.cons_append, entriesFrom_clear_cons hp hj,
    entriesFrom_joined h1 hc hlt (by omega)]
  exact entriesFrom_closed h2 (hlt _ (List.getLast_mem _)) hb

/-- Losses that join in a cleared place and fill the entry. -/
theorem entriesFrom_clear_long (ls : List Loss) (hn : 254 ≤ (first :: rest).length) :
    ∃ y ys prev', entriesFrom snLen {} prev.sn (first :: rest ++ ls) =
      y :: entriesFrom snLen {} prev' ys ∧ y.sn = 0 := by
  simp only [List.length_cons] at hn
  obtain ⟨r1, loss, r2, e, hr⟩ : ∃ r1 loss r2, rest = r1 ++ loss :: r2 ∧ r1.length = 252 := by
    have h : 252 < rest.length := by omega
    refine ⟨rest.take 252, rest[252], rest.drop 253, ?_, by simp; omega⟩
    rw [← List.drop_eq_getElem_cons h, List.take_append_drop]
  subst e
  have h1 : EndsWith (clearEntry [first]) first := endsWith_join _ _
  have h2 := endsWith_foldl_join {} (first :: r1) (List.cons_ne_nil _ _)
  have h3 := clearEntry_count [first]
  have h4 := clearEntry_count (first :: r1)
  simp only [List.length_cons, List.length_nil] at h3 h4
  rw [← List.cons_append, List.isChain_append] at hc
  have hj' : joins snLen ((first :: r1).getLast (List.cons_ne_nil _ _)) loss = true :=
    hc.2.2 _ (List.getLast?_eq_some_getLast _) _ rfl
  have hlt' : ∀ l ∈ first :: r1, l.sn < snLen.modulus := fun l hl =>
    hlt l (by rw [← List.cons_append]; exact List.mem_append_left _ hl)
  refine ⟨(clearEntry (first :: r1)).join loss, r2 ++ ls, loss.sn, ?_, ?_⟩
  · rw [List.cons_append, entriesFrom_clear_cons hp hj, List.append_assoc, List.cons_append,
      entriesFrom_joined h1 hc.1 hlt' (by omega)]
    exact entriesFrom_full h2 (hlt' _ (List.getLast_mem _)) hj' (h4.trans (by omega))
  · rw [join_sn, clearEntry_sn]

end

/-! ## The coincidence -/

/-- One run fills an entry, and the SN behind is 0, the one that a cleared place speaks of. The
rest of the run does not fill the entry there, and of the SN that is counted too much something
is lost behind the end of the run. -/
structure Rescued (amUl : RlcAmUl) (pre : List (List Loss)) (full rest next : List Loss)
    (post : List (List Loss)) : Prop where
  burst : Burst amUl pre full rest (next :: post)
  zero : ∃ loss, rest.head? = some loss ∧ loss.sn = 0
  restLength : rest.length < 254
  shortPost : ∀ run ∈ next :: post, run.length < 255
  follows : ∃ last first, rest.getLast? = some last ∧ next.head? = some first ∧
    first.sn = last.sn + 1 ∧ last.soEnd < first.soStart
  fits : pre.length + post.length + 3 ≤ RLC_MAX_NACK_CNT

namespace Burst

variable {amUl : RlcAmUl} {pre post : List (List Loss)} {first : Loss} {full rest : List Loss}
  (b : Burst amUl pre full (first :: rest) post)

include b

theorem joins_first : joins amUl.snLen (full.getLast b.full_ne) first = true :=
  (List.isChain_append.1 b.chain).2.2 _ (List.getLast?_eq_some_getLast _) _ rfl

theorem rest_chain : (first :: rest).IsChain fun x y => joins amUl.snLen x y = true :=
  (List.isChain_append.1 b.chain).2.1

theorem rest_sn_lt : ∀ loss ∈ first :: rest, loss.sn < amUl.snLen.modulus :=
  fun _ h => b.sn_lt _ (List.mem_append_left _ h)

theorem last_sn_lt : (full.getLast b.full_ne).sn < amUl.snLen.modulus :=
  b.isRun_full.sn_lt _ (List.getLast_mem _)

/-- The rest of the run counts up from SN 0. -/
theorem rest_sn (h0 : first.sn = 0) {k : ℕ} (hk : k < amUl.snLen.modulus) {loss : Loss}
    (h : (first :: rest)[k]? = some loss) : loss.sn = k := by
  have e := sn_of_isChain b.rest_chain (b.rest_sn_lt first (.head _)) h
  rwa [h0, Nat.zero_add, Nat.mod_eq_of_lt hk] at e

theorem rest_last_sn (h0 : first.sn = 0) (hn : (first :: rest).length < 254) :
    ((first :: rest).getLast (List.cons_ne_nil _ _)).sn = rest.length := by
  have hM := amUl.snLen.modulus_gt
  simp only [List.length_cons] at hn
  refine b.rest_sn h0 (by omega) ?_
  rw [← List.getLast?_eq_some_getLast, List.getLast?_eq_getElem?]
  simp

/-- All entries, if the rest of the run does not fill another one. -/
theorem entries_rest (hn : (first :: rest).length < 254) :
    ∃ es e, List.Forall₂ IsEntry es pre ∧ IsEntry e full ∧
      entries amUl.snLen (losses amUl) =
        es ++ e :: clearEntry (first :: rest) :: entries amUl.snLen post.flatten := by
  obtain ⟨es, e, hf, hi, he⟩ := b.entries_eq
  have hb : ∀ loss, post.flatten.head? = some loss →
      joins amUl.snLen ((first :: rest).getLast (List.cons_ne_nil _ _)) loss = false := by
    intro loss h
    have := b.not_joins_post h (List.append_ne_nil_of_right_ne_nil _ (List.cons_ne_nil _ _))
    rwa [List.getLast_append_of_ne_nil _ (List.cons_ne_nil _ _)] at this
  refine ⟨es, e, hf, hi, ?_⟩
  rw [he, entriesFrom_clear_short b.last_sn_lt (next_of_joins b.joins_first).symm b.rest_chain
    b.rest_sn_lt hn hb]

variable {sta : RlcUdxDlStaPdu} (hs : StatusSound amUl sta)
  (hn : sta.nacks = entries amUl.snLen (losses amUl)) (hack : sta.ackSn = amUl.rxHighestStatus)

include hs hn hack

/-- A second cleared place would speak of SN 0 again. -/
theorem rest_length_lt : (first :: rest).length < 254 := by
  by_contra hlen
  obtain ⟨es, e, -, -, he⟩ := b.entries_eq
  obtain ⟨y, ls, prev', hy, hy0⟩ := entriesFrom_clear_long b.last_sn_lt
    (next_of_joins b.joins_first).symm b.rest_chain b.rest_sn_lt post.flatten
    (not_lt.1 hlen)
  obtain ⟨y', ys, hy', hy0', hy1'⟩ := entriesFrom_clear amUl.snLen prev' ls
  rw [hy, hy'] at he
  have hnacks : sta.nacks = es ++ e :: y :: y' :: ys := hn.trans he
  have hmem : y ∈ sta.nacks := by simp [hnacks]
  have ho := hs.ordered
  rw [hnacks, List.pairwise_append] at ho
  have h := ((List.pairwise_cons.1 (List.pairwise_cons.1 ho.2.1).2).1 y' (.head _)).pos_lt hy1'
  rw [hs.pos_lastSn hmem (hy0 ▸ amUl.snLen.modulus_pos) hack, hy0, hy0'] at h
  omega

/-- The SN counted too much is the one behind the run, and something of it is lost. -/
theorem follows_rest (h0 : first.sn = 0) :
    ∃ next post' first', post = next :: post' ∧ next.head? = some first' ∧
      first'.sn = rest.length + 1 ∧
      ((first :: rest).getLast (List.cons_ne_nil _ _)).soEnd < first'.soStart := by
  have hlen := b.rest_length_lt hs hn hack
  have hM := amUl.snLen.modulus_gt
  obtain ⟨es, e, -, -, he⟩ := b.entries_rest hlen
  have hz0 := clearEntry_sn (first :: rest)
  have hzc := clearEntry_count (first :: rest)
  simp only [List.length_cons] at hlen hzc
  have hnacks := hn.trans he
  have hmem : clearEntry (first :: rest) ∈ sta.nacks := by simp [hnacks]
  have hz : (clearEntry (first :: rest)).sn < amUl.snLen.modulus := hz0 ▸ amUl.snLen.modulus_pos
  have hk : rest.length + 1 < amUl.snLen.modulus := by omega
  -- the SN counted too much is covered, so something of it is lost
  have hoff := offset_add hz hk
  rw [hz0, Nat.zero_add, Nat.mod_eq_of_lt hk] at hoff
  obtain ⟨loss, hl, e0⟩ := hs.exists_loss hmem hack hk (by
    rw [RlcNackInfo.CoversSn, hoff, hzc]
    omega)
  have hpos : amUl.pos (rest.length + 1) = amUl.pos 0 + (rest.length + 1) := by
    have h := (hs.pos_add hmem hz hack (show rest.length + 1 < _ by omega)).2.1
    rwa [hz0, Nat.zero_add, Nat.mod_eq_of_lt hk] at h
  have hpost : loss ∈ post.flatten := by
    rw [b.losses_eq] at hl
    rcases List.mem_append.1 hl with hl | hl
    · have h1 := b.pos_le_last hl
      have h2 := (b.zero_later hs hn hack).1
      rw [e0] at h1
      omega
    rcases List.mem_append.1 hl with hl | hl
    · obtain ⟨k, hk'⟩ := List.mem_iff_getElem?.1 hl
      have h1 := (List.getElem?_eq_some_iff.1 hk').1
      simp only [List.length_cons] at h1
      have h2 := b.rest_sn h0 (by omega) hk'
      omega
    · exact hl
  -- so there is a next run, and it starts with this SN
  cases post with
  | nil => cases hpost
  | cons next post =>
    have hnext : next ∈ runs amUl := by
      rw [b.runs_eq]
      simp
    obtain ⟨first', next', rfl⟩ := List.exists_cons_of_ne_nil (List.ne_nil_of_mem_splitBy hnext)
    have hle : amUl.pos first'.sn ≤ amUl.pos loss.sn := by
      rw [List.flatten_cons, List.cons_append] at hpost
      rcases List.mem_cons.1 hpost with rfl | hpost
      · exact le_rfl
      · have hp := (List.pairwise_append.1 (b.losses_eq ▸ losses_pairwise amUl)).2.1
        have hp' := (List.pairwise_append.1 hp).2.1
        rw [List.flatten_cons, List.cons_append] at hp'
        exact ((List.pairwise_cons.1 hp').1 loss hpost).pos_le
    obtain ⟨y, ys, hy, hy0, hy1⟩ :=
      entriesFrom_head amUl.snLen first'.entry first'.sn (next' ++ post.flatten)
    have hy' : entries amUl.snLen ((first' :: next') :: post).flatten = y :: ys := hy
    have ho := hs.ordered
    rw [hnacks, hy', List.pairwise_append] at ho
    have hlast : (clearEntry (first :: rest)).lastSn amUl.snLen = rest.length + 1 := by
      rw [RlcNackInfo.lastSn, hz0, hzc, Nat.zero_add, Nat.add_sub_cancel, Nat.mod_eq_of_lt hk]
    have h := (List.pairwise_cons.1 (List.pairwise_cons.1 ho.2.1).2).1 y (.head _)
    rw [RlcAmUl.EntryBefore, hlast] at h
    replace hy0 : y.sn = first'.sn := hy0
    replace hy1 : y.soStart ≤ first'.soStart := hy1
    rcases h with h | ⟨h1, h2, -, h3⟩
    · rw [hy0] at h
      rw [e0] at hle
      omega
    refine ⟨first' :: next', post, first', rfl, rfl, by omega, ?_⟩
    have hends := endsWith_foldl_join {} (first :: rest) (List.cons_ne_nil _ _)
    cases hseg : ((first :: rest).getLast (List.cons_ne_nil _ _)).isSegment with
    | true =>
      have h4 : (clearEntry (first :: rest)).soEnd = _ := (hends.seg hseg).2
      omega
    | false =>
      have h4 : (clearEntry (first :: rest)).soEnd = RLC_ALL_BYTES_MISSING := hends.whole hseg h2
      obtain ⟨-, h5, h6⟩ := mem_lossesSn (mem_losses_iff.1 (subset_losses hnext (.head _))).2.2
      omega

/-- No later run fills an entry: its successor would speak of SN 0 once more. -/
theorem short_post : ∀ run ∈ post, run.length < 255 := by
  by_contra! hlong
  obtain ⟨pre', run, post', e', hrun, hpre'⟩ := Lists.exists_first hlong
  have hlen := b.rest_length_lt hs hn hack
  obtain ⟨es, e, -, -, he⟩ := b.entries_rest hlen
  have hruns : runs amUl = (pre ++ [full ++ first :: rest]) ++ (pre' ++ run :: post') := by
    rw [b.runs_eq, e', List.append_assoc, List.singleton_append]
  obtain ⟨es', -, he'⟩ := entries_short hruns fun r hr => not_le.1 (hpre' r hr)
  have hmem : run ∈ runs amUl := by
    rw [hruns]
    simp
  have hc := List.isChain_of_mem_splitBy hmem
  rw [← List.take_append_drop 255 run, List.isChain_append] at hc
  have hlen' : (run.take 255).length = 255 := by rw [List.length_take, min_eq_left hrun]
  obtain ⟨e2, -, he2⟩ := entries_burst (run.drop 255 ++ post'.flatten)
    (fun h => by simp [h] at hlen') hc.1
    (fun l hl => losses_sn_lt (subset_losses hmem (List.mem_of_mem_take hl))) hlen'
  obtain ⟨y, ys, hy, hy0, hy1⟩ := entriesFrom_clear amUl.snLen
    ((run.take 255).getLast fun h => by simp [h] at hlen').sn (run.drop 255 ++ post'.flatten)
  rw [← List.append_assoc, List.take_append_drop, hy] at he2
  rw [e', he', List.flatten_cons, he2] at he
  have hz : clearEntry (first :: rest) ∈ sta.nacks := by simp [hn, he]
  have hz0 := clearEntry_sn (first :: rest)
  have ho := hs.ordered
  rw [hn, he, List.pairwise_append] at ho
  have h := ((List.pairwise_cons.1 (List.pairwise_cons.1 ho.2.1).2).1 y (by simp)).pos_lt hy1
  rw [hs.pos_lastSn hz (hz0 ▸ amUl.snLen.modulus_pos) hack, hz0, hy0] at h
  omega

/-- **A sound STATUS with a burst is the coincidence.** -/
theorem rescued (h0 : first.sn = 0)
    (hfit : (entries amUl.snLen (losses amUl)).length ≤ RLC_MAX_NACK_CNT) :
    ∃ next post', Rescued amUl pre full (first :: rest) next post' := by
  have hlen := b.rest_length_lt hs hn hack
  obtain ⟨next, post', first', rfl, h1, h2, h3⟩ := b.follows_rest hs hn hack h0
  have hshort := b.short_post hs hn hack
  refine ⟨next, post', b, ⟨first, rfl, h0⟩, hlen, hshort, ?_, ?_⟩
  · refine ⟨_, first', List.getLast?_eq_some_getLast (List.cons_ne_nil _ _), h1, ?_, h3⟩
    rw [h2, b.rest_last_sn h0 hlen]
  · obtain ⟨es, e, hf, -, he⟩ := b.entries_rest hlen
    have hruns : runs amUl = (pre ++ [full ++ first :: rest]) ++ ((next :: post') ++ []) := by
      rw [b.runs_eq, List.append_assoc, List.singleton_append, List.append_nil]
    obtain ⟨es', hf', he'⟩ := entries_short hruns hshort
    rw [List.append_nil] at he'
    rw [he, he'] at hfit
    have hl := hf.length_eq
    have hl' := hf'.length_eq
    simp only [List.length_append, List.length_cons, entries, List.flatten_nil,
      List.length_nil] at hfit hl'
    omega

end Burst

/-- A burst in a sound STATUS goes on with SN 0. -/
theorem exists_rescued {amUl : RlcAmUl} (h : amUl.ReportsLosses)
    (hlong : ∃ run ∈ runs amUl, 255 ≤ run.length) :
    ∃ pre full rest next post, Rescued amUl pre full rest next post := by
  obtain ⟨sta, hsta, hs⟩ := h
  have hfit : (entries amUl.snLen (losses amUl)).length ≤ RLC_MAX_NACK_CNT := by
    by_contra hc
    rw [assemble_eq_none (not_le.1 hc)] at hsta
    cases hsta
  obtain ⟨sta', hsta', -, hn, hack⟩ := assemble_eq_some hfit
  obtain rfl : sta' = sta := Option.some.inj (hsta'.symm.trans hsta)
  obtain ⟨pre, full, rest, post, b⟩ := exists_burst hlong
  obtain ⟨loss, ls, hX, h0, hj⟩ := b.next_zero hs hn hack
  cases rest with
  | nil =>
    -- the next run would go on with the last loss of this one
    have hne : full ++ [] ≠ [] := by
      rw [List.append_nil]
      exact b.full_ne
    have := b.not_joins_post (by rw [← List.nil_append post.flatten, hX]; rfl) hne
    simp only [List.append_nil] at this
    rw [hj] at this
    cases this
  | cons first rest =>
    obtain rfl : first = loss := (List.cons.inj hX).1
    obtain ⟨next, post', h⟩ := b.rescued hs hn hack h0 hfit
    exact ⟨pre, full, first :: rest, next, post', h⟩

/-! ## The coincidence is sound -/

/-- In a cleared place the distance from the first SN is the SN itself. -/
theorem clearEntry_offset {snLen : SnLen} (rest : List Loss) {sn : ℕ} (h : sn < snLen.modulus) :
    (clearEntry rest).offset snLen sn = sn := by
  rw [RlcNackInfo.offset, clearEntry_sn, Nat.sub_zero, Nat.add_mod_right, Nat.mod_eq_of_lt h]

theorem clearEntry_lastSn {snLen : SnLen} {rest : List Loss} (h : rest.length < snLen.modulus) :
    (clearEntry rest).lastSn snLen = rest.length := by
  rw [RlcNackInfo.lastSn, clearEntry_sn, clearEntry_count, Nat.zero_add, Nat.add_sub_cancel,
    Nat.mod_eq_of_lt h]

namespace Burst

variable {amUl : RlcAmUl} {pre post : List (List Loss)} {first first' : Loss}
  {full rest next : List Loss} (b : Burst amUl pre full (first :: rest) ((first' :: next) :: post))
  (h0 : first.sn = 0)

include b

theorem first'_mem_losses : first' ∈ losses amUl := b.mem_losses_behind (by simp)

include h0

theorem clearEntry_stands (hlen : (first :: rest).length < 254)
    (hf : first'.sn = rest.length + 1) : Stands amUl (clearEntry (first :: rest)) (first :: rest) := by
  have hM := amUl.snLen.modulus_gt
  have hc := clearEntry_count (first :: rest)
  constructor
  · intro loss hl c _ _
    obtain ⟨k, hk⟩ := List.mem_iff_getElem?.1 hl
    have hk' := (List.getElem?_eq_some_iff.1 hk).1
    have hlt : k < amUl.snLen.modulus := by omega
    have e := b.rest_sn h0 hlt hk
    refine ⟨?_, fun _ => ⟨fun _ => ?_, fun h => ?_⟩⟩
    · rw [RlcNackInfo.CoversSn, e, clearEntry_offset _ hlt, hc]
      omega
    · rw [clearEntry_soStart]
      exact Nat.zero_le _
    · rw [e, clearEntry_offset _ hlt, hc] at h
      omega
  · intro sn hsn hcov
    rw [RlcNackInfo.CoversSn, clearEntry_offset _ hsn, hc, List.length_cons] at hcov
    rcases Nat.lt_or_ge sn (rest.length + 1) with h | h
    · have hk : (first :: rest)[sn]? = some ((first :: rest)[sn]) :=
        List.getElem?_eq_getElem (by simpa using h)
      exact ⟨_, b.mem_losses_behind (List.mem_append_left _ (List.getElem_mem _)),
        b.rest_sn h0 hsn hk⟩
    · exact ⟨first', b.first'_mem_losses, by omega⟩

/-- Everything up to the full entry is before SN 0. -/
theorem before_clearEntry {e : RlcNackInfo} {run : List Loss} (hi : IsEntry e run)
    (hr : IsRun amUl.snLen run) (hs : run ⊆ pre.flatten ++ full) :
    amUl.EntryBefore e (clearEntry (first :: rest)) := by
  left
  rw [hi.lastSn hr hi.1, clearEntry_sn]
  have h1 := b.pos_le_last (hs (List.getLast_mem hi.1))
  have hp := (List.pairwise_append.1 (b.losses_eq ▸ losses_pairwise amUl)).2.2
  rcases hp _ (List.mem_append_right _ (List.getLast_mem b.full_ne)) first (by simp) with h2 | ⟨h2, -⟩
  · rw [h0] at h2
    exact lt_of_le_of_lt h1 h2
  · have h3 := next_of_joins b.joins_first
    exact absurd (h3.symm.trans h2.symm) (next_ne b.last_sn_lt)

/-- The entry in the cleared place ends before what is lost behind the run. -/
theorem clearEntry_before (hlen : (first :: rest).length < 254)
    (hf : first'.sn = rest.length + 1) {e : RlcNackInfo} {run : List Loss} (hi : IsEntry e run)
    (hend : ((first :: rest).getLast (List.cons_ne_nil _ _)).soEnd < first'.soStart)
    (hb : run.head hi.1 = first' ∨ amUl.LossBefore first' (run.head hi.1)) :
    amUl.EntryBefore (clearEntry (first :: rest)) e := by
  have hM := amUl.snLen.modulus_gt
  have hlast := b.rest_last_sn h0 hlen
  -- the last loss does not join the next one, so it ends at a byte with received ones behind
  have hj := b.not_joins_post (show _ = some first' from rfl)
    (List.append_ne_nil_of_right_ne_nil _ (List.cons_ne_nil _ _))
  rw [List.getLast_append_of_ne_nil _ (List.cons_ne_nil first rest)] at hj
  have hseg : ((first :: rest).getLast (List.cons_ne_nil _ _)).isSegment = true := by
    by_contra hns
    simp only [List.length_cons] at hlen
    simp [joins, hlast, hns, hf] at hj
    exact hj (Nat.mod_eq_of_lt (by omega))
  obtain ⟨h1, h2⟩ := (endsWith_foldl_join {} (first :: rest) (List.cons_ne_nil _ _)).seg hseg
  have hmem := mem_losses_iff.1 b.first'_mem_losses
  have hle := (mem_lossesSn hmem.2.2).2.1
  have hfseg : first'.isSegment = true := by
    by_contra hns
    have := soStart_of_whole hmem.2.2 (by simpa using hns)
    omega
  have hlast' : (clearEntry (first :: rest)).lastSn amUl.snLen = first'.sn := by
    rw [clearEntry_lastSn (by omega), List.length_cons, hf]
  rw [RlcAmUl.EntryBefore, hlast', hi.2.sn]
  rcases hb with hb | hb | ⟨e1, e2, e3, e4⟩
  · obtain ⟨s1, s2⟩ := hi.2.firstSeg (hb ▸ hfseg)
    rw [hb] at s2 ⊢
    exact .inr ⟨rfl, h1, s1, by rw [s2]; exact h2 ▸ hend⟩
  · exact .inl hb
  · obtain ⟨s1, s2⟩ := hi.2.firstSeg e3
    refine .inr ⟨e1, h1, s1, ?_⟩
    have h2' : (clearEntry (first :: rest)).soEnd = _ := h2
    omega

/-- The entries come one after the other. -/
theorem entries_pairwise (hlen : (first :: rest).length < 254) (hf : first'.sn = rest.length + 1)
    (hend : ((first :: rest).getLast (List.cons_ne_nil _ _)).soEnd < first'.soStart)
    (hshort : ∀ run ∈ (first' :: next) :: post, run.length < 255) {es es' : List RlcNackInfo}
    {e : RlcNackInfo} (hes : List.Forall₂ IsEntry es pre) (hi : IsEntry e full)
    (hes' : List.Forall₂ IsEntry es' ((first' :: next) :: post)) :
    (es ++ e :: clearEntry (first :: rest) :: es').Pairwise amUl.EntryBefore := by
  have hp := List.pairwise_append.1 (b.losses_eq ▸ losses_pairwise amUl)
  have hruns := runs_pairwise amUl
  rw [b.runs_eq, List.pairwise_append, List.pairwise_cons, List.pairwise_cons] at hruns
  have hrun : ∀ run ∈ pre, IsRun amUl.snLen run ∧ run ⊆ pre.flatten ++ full := fun run hr =>
    ⟨isRun_of_mem (b.runs_eq ▸ List.mem_append_left _ hr) (b.short run hr).le,
      fun _ hl => List.mem_append_left _ (List.mem_flatten_of_mem hr hl)⟩
  have hafter : ∀ {e run}, IsEntry e run → IsRun amUl.snLen run → run ⊆ pre.flatten ++ full →
      ∀ e' ∈ es', amUl.EntryBefore e e' := by
    intro e run hi hr hs e' he'
    obtain ⟨run', hrun', hi'⟩ := Lists.exists_of_mem_left hes' he'
    refine entryBefore_of_lossBefore hi hr hi' fun l hl l' hl' => hp.2.2 l (hs hl) l' ?_
    exact List.mem_append_right _ (List.mem_flatten_of_mem hrun' hl')
  refine List.pairwise_append.2 ⟨entryBefore_of_forall₂ hes ?_ b.short,
    List.pairwise_cons.2 ⟨?_, List.pairwise_cons.2 ⟨?_, entryBefore_of_forall₂ hes' ?_ hshort⟩⟩, ?_⟩
  · rw [b.runs_eq]
    exact List.sublist_append_left _ _
  · intro e' he'
    rcases List.mem_cons.1 he' with rfl | he'
    · exact b.before_clearEntry h0 hi b.isRun_full fun _ hl => List.mem_append_right _ hl
    · exact hafter hi b.isRun_full (fun _ hl => List.mem_append_right _ hl) e' he'
  · intro e' he'
    obtain ⟨run', hrun', hi'⟩ := Lists.exists_of_mem_left hes' he'
    refine b.clearEntry_before h0 hlen hf hi' hend ?_
    rcases List.mem_cons.1 hrun' with rfl | hrun'
    · exact .inl rfl
    · exact .inr (hruns.2.1.2.1 run' hrun' first' (.head _) _ (List.head_mem hi'.1))
  · rw [b.runs_eq]
    exact ((List.sublist_cons_self _ _).trans (List.sublist_append_right _ _))
  · intro e1 he1 e' he'
    obtain ⟨run1, hrun1, hi1⟩ := Lists.exists_of_mem_left hes he1
    obtain ⟨hr1, hs1⟩ := hrun run1 hrun1
    rcases List.mem_cons.1 he' with rfl | he'
    · refine entryBefore_of_lossBefore hi1 hr1 hi fun l hl l' hl' => ?_
      exact (List.pairwise_append.1 hp.1).2.2 l (List.mem_flatten_of_mem hrun1 hl) l' hl'
    rcases List.mem_cons.1 he' with rfl | he'
    · exact b.before_clearEntry h0 hi1 hr1 hs1
    · exact hafter hi1 hr1 hs1 e' he'

end Burst

/-- **The coincidence is sound.** -/
theorem reportsLosses_of_rescued {amUl : RlcAmUl} {pre post : List (List Loss)}
    {full rest next : List Loss} (h : Rescued amUl pre full rest next post) :
    amUl.ReportsLosses := by
  obtain ⟨b, ⟨first, hz, h0⟩, hlen, hshort, ⟨last, first', hl, hf, hsn, hend⟩, hfit⟩ := h
  obtain ⟨rest, rfl⟩ : ∃ rest', rest = first :: rest' := List.head?_eq_some_iff.1 hz
  obtain ⟨next, rfl⟩ : ∃ next', next = first' :: next' := List.head?_eq_some_iff.1 hf
  obtain rfl : (first :: rest).getLast (List.cons_ne_nil _ _) = last := by
    rwa [List.getLast?_eq_some_getLast (List.cons_ne_nil _ _), Option.some.injEq] at hl
  rw [b.rest_last_sn h0 hlen] at hsn
  obtain ⟨es, e, hes, hi, he⟩ := b.entries_rest hlen
  have hruns : runs amUl = (pre ++ [full ++ first :: rest]) ++ (((first' :: next) :: post) ++ []) := by
    rw [b.runs_eq, List.append_assoc, List.singleton_append, List.append_nil]
  obtain ⟨es', hes', he'⟩ := entries_short hruns hshort
  rw [List.append_nil, List.flatten_nil, entries, List.append_nil] at he'
  rw [he'] at he
  have hmem : ∀ run ∈ pre, run ∈ runs amUl := fun run hr => b.runs_eq ▸ List.mem_append_left _ hr
  have hmem' : ∀ run ∈ (first' :: next) :: post, run ∈ runs amUl := fun run hr => by
    rw [b.runs_eq]
    exact List.mem_append_right _ (.tail _ hr)
  have hsub : full ⊆ losses amUl := fun _ hl =>
    subset_losses b.mem_runs (List.mem_append_left _ hl)
  obtain ⟨sta, hsta, -, hn, hack⟩ := assemble_eq_some (show
      (entries amUl.snLen (losses amUl)).length ≤ RLC_MAX_NACK_CNT by
    have h1 := hes.length_eq
    have h2 := hes'.length_eq
    rw [he]
    simp only [List.length_append, List.length_cons] at h2 ⊢
    omega)
  rw [he] at hn
  have hstands : List.Forall₂ (Stands amUl) sta.nacks
      (pre ++ full :: (first :: rest) :: (first' :: next) :: post) := by
    rw [hn]
    exact List.rel_append (stands_of_forall₂ hes hmem b.short)
      (.cons (hi.stands b.isRun_full hsub)
        (.cons (b.clearEntry_stands h0 hlen hsn) (stands_of_forall₂ hes' hmem' hshort)))
  refine ⟨sta, hsta, statusSound_of_stands hack hstands ?_ ?_⟩
  · rw [b.losses_eq]
    simp
  · rw [hn]
    exact b.entries_pairwise h0 hlen hsn hend hshort hes hi hes'

/-! ## The condition -/

/-- **The STATUS says what is missing exactly if no run of losses fills an entry**, the one
coincidence with SN 0 aside, and the runs have places in the array. -/
theorem reportsLosses_iff (amUl : RlcAmUl) :
    amUl.ReportsLosses ↔
      amUl.ShortRuns ∨ ∃ pre full rest next post, Rescued amUl pre full rest next post := by
  constructor
  · intro h
    by_cases hlong : ∃ run ∈ runs amUl, 255 ≤ run.length
    · exact .inr (exists_rescued h hlong)
    · have hshort : ∀ run ∈ runs amUl, run.length < 255 := by simpa using hlong
      refine .inl ⟨hshort, ?_⟩
      obtain ⟨es, hf, he⟩ := entries_losses (List.append_nil (runs amUl)).symm hshort
      rw [List.flatten_nil, entries, List.append_nil] at he
      rw [← hf.length_eq, ← he]
      obtain ⟨sta, hsta, -⟩ := h
      by_contra hc
      rw [assemble_eq_none (not_le.1 hc)] at hsta
      cases hsta
  · rintro (h | ⟨pre, full, rest, next, post, h⟩)
    · exact reportsLosses_of_shortRuns h
    · exact reportsLosses_of_rescued h

/-- SN 256 is received, and nothing before it. -/
def lostBurst : RlcAmUl where
  snLen := .bits12
  rxNext := 0
  rxHighestStatus := 257
  recBufLst k :=
    if k = 256 then
      [{ sn := 256
         ordered := RlcAmRecBuf.nil_ordered
         offsets := RlcAmRecBuf.nil_offsets }]
    else []
  rxNext_lt := SnLen.modulus_pos .bits12
  rxHighestStatus_lt := by decide

theorem lostBurst_nacks :
    (rlcAmmUlAssembleCntrlInfo lostBurst).map (fun sta => (sta.nacks, sta.ackSn)) =
      some ([{ nackRange := 255 }, { nackRange := 2 }], 257) := by
  decide +kernel

/-- SN 255 is missing, and the STATUS acknowledges it. -/
theorem lost_sn_acknowledged : ¬ lostBurst.ReportsLosses := by
  rintro ⟨sta, hsta, hs⟩
  have h := lostBurst_nacks
  rw [hsta, Option.map_some, Option.some.injEq, Prod.mk.injEq] at h
  have hm : lostBurst.Missing 255 0 := ⟨by decide, fun rb hrb => by cases hrb⟩
  obtain ⟨e, he, hc⟩ := hs.covered 255 (by decide) (by rw [h.2]; decide) 0 hm
  have hno : ∀ e ∈ [({ nackRange := 255 } : RlcNackInfo), { nackRange := 2 }],
      ¬ e.offset .bits12 255 < e.count := by decide
  exact hno e (h.1 ▸ he) hc.1

end OaiCu.OduRlc
