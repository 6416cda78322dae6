import OaiCu.Lib.Lists
import OaiCu.OduRlc.Runs

/-!
# What the STATUS says is what is missing

An entry stands for all bytes from offset `soStart` of its first SN to offset `soEnd` of its
last one. `StatusSound` asks that every missing byte is in an entry, that no entry has an SN
that is received or is not reported on, and that the entries come one strictly after the other,
from `rxNext` up to `ackSn`.
-/

namespace OaiCu.OduRlc

/-! ## The meaning of an entry -/

/-- How far `sn` is from the first SN of the entry. -/
def RlcNackInfo.offset (snLen : SnLen) (nackInfo : RlcNackInfo) (sn : ℕ) : ℕ :=
  (sn + snLen.modulus - nackInfo.sn) % snLen.modulus

/-- `sn` is one of the SNs of the entry. -/
def RlcNackInfo.CoversSn (snLen : SnLen) (nackInfo : RlcNackInfo) (sn : ℕ) : Prop :=
  nackInfo.offset snLen sn < nackInfo.count

/-- Byte `b` of `sn` is in the entry. -/
def RlcNackInfo.Covers (snLen : SnLen) (nackInfo : RlcNackInfo) (sn b : ℕ) : Prop :=
  nackInfo.CoversSn snLen sn ∧ (nackInfo.isSegment = true →
    (nackInfo.offset snLen sn = 0 → nackInfo.soStart ≤ b) ∧
    (nackInfo.offset snLen sn = nackInfo.count - 1 → b ≤ nackInfo.soEnd))

def RlcNackInfo.lastSn (snLen : SnLen) (nackInfo : RlcNackInfo) : ℕ :=
  (nackInfo.sn + (nackInfo.count - 1)) % snLen.modulus

/-- The entry `e` ends before `e'` starts. -/
def RlcAmUl.EntryBefore (amUl : RlcAmUl) (e e' : RlcNackInfo) : Prop :=
  amUl.pos (e.lastSn amUl.snLen) < amUl.pos e'.sn ∨
    (e.lastSn amUl.snLen = e'.sn ∧ e.isSegment = true ∧ e'.isSegment = true ∧
      e.soEnd < e'.soStart)

structure StatusSound (amUl : RlcAmUl) (sta : RlcUdxDlStaPdu) : Prop where
  covered : ∀ sn < amUl.snLen.modulus, amUl.pos sn < amUl.pos sta.ackSn →
    ∀ b, amUl.Missing sn b → ∃ e ∈ sta.nacks, e.Covers amUl.snLen sn b
  needed : ∀ e ∈ sta.nacks, ∀ sn < amUl.snLen.modulus, e.CoversSn amUl.snLen sn →
    amUl.pos sn < amUl.pos sta.ackSn ∧ ¬ amUl.FullyReceived sn
  ordered : sta.nacks.Pairwise amUl.EntryBefore

/-! ## The entry of a run -/

theorem SnLen.modulus_gt (snLen : SnLen) : 255 < snLen.modulus := by
  cases snLen <;> decide

theorem offset_add {snLen : SnLen} {e : RlcNackInfo} (he : e.sn < snLen.modulus) {k : ℕ}
    (hk : k < snLen.modulus) : e.offset snLen ((e.sn + k) % snLen.modulus) = k := by
  rw [RlcNackInfo.offset]
  rcases Nat.lt_or_ge (e.sn + k) snLen.modulus with h | h
  · rw [Nat.mod_eq_of_lt h, show e.sn + k + snLen.modulus - e.sn = k + snLen.modulus by omega,
      Nat.add_mod_right, Nat.mod_eq_of_lt hk]
  · rw [Nat.mod_eq_sub_mod h, Nat.mod_eq_of_lt (show e.sn + k - snLen.modulus < _ by omega),
      Nat.mod_eq_of_lt (by omega)]
    omega

theorem add_offset {snLen : SnLen} {e : RlcNackInfo} (he : e.sn < snLen.modulus) {sn : ℕ}
    (hs : sn < snLen.modulus) : (e.sn + e.offset snLen sn) % snLen.modulus = sn := by
  rw [RlcNackInfo.offset, Nat.add_mod_mod, show e.sn + (sn + snLen.modulus - e.sn)
    = sn + snLen.modulus by omega, Nat.add_mod_right, Nat.mod_eq_of_lt hs]

theorem coversSn_self {snLen : SnLen} {e : RlcNackInfo} (he : e.sn < snLen.modulus) :
    e.CoversSn snLen e.sn := by
  have h : e.sn + snLen.modulus - e.sn = snLen.modulus := by omega
  rw [RlcNackInfo.CoversSn, RlcNackInfo.offset, h, Nat.mod_self]
  exact Nat.lt_of_lt_of_le Nat.one_pos (Nat.le_max_right _ _)

/-- In a run every loss has the next SN. -/
theorem sn_of_isChain {snLen : SnLen} {first : Loss} {rest : List Loss}
    (hc : (first :: rest).IsChain fun x y => joins snLen x y = true)
    (hf : first.sn < snLen.modulus) {k : ℕ} {loss : Loss} (h : (first :: rest)[k]? = some loss) :
    loss.sn = (first.sn + k) % snLen.modulus := by
  induction rest generalizing first k with
  | nil =>
    cases k with
    | zero => cases h; exact (Nat.mod_eq_of_lt hf).symm
    | succ k => simp at h
  | cons second rest ih =>
    rw [List.isChain_cons_cons] at hc
    cases k with
    | zero => cases h; exact (Nat.mod_eq_of_lt hf).symm
    | succ k =>
      have e := next_of_joins hc.1
      rw [List.getElem?_cons_succ] at h
      rw [ih hc.2 (e ▸ Nat.mod_lt _ snLen.modulus_pos) h, e, Nat.mod_add_mod]
      congr 1
      omega

/-- A run as the scan makes them. -/
structure IsRun (snLen : SnLen) (run : List Loss) : Prop where
  chain : run.IsChain fun x y => joins snLen x y = true
  sn_lt : ∀ loss ∈ run, loss.sn < snLen.modulus
  whole : ∀ loss ∈ run, loss.isSegment = false → loss.soStart = 0
  length_le : run.length ≤ 255

section

variable {snLen : SnLen} {e : RlcNackInfo} {run : List Loss}

theorem IsEntry.sn_lt (h : IsEntry e run) (hr : IsRun snLen run) : e.sn < snLen.modulus := by
  obtain ⟨hne, h⟩ := h
  exact h.sn ▸ hr.sn_lt _ (List.head_mem hne)

theorem IsEntry.getElem_sn (h : IsEntry e run) (hr : IsRun snLen run) {k : ℕ} {loss : Loss}
    (hk : run[k]? = some loss) : loss.sn = (e.sn + k) % snLen.modulus := by
  obtain ⟨hne, h⟩ := h
  cases run with
  | nil => exact absurd rfl hne
  | cons first rest =>
    rw [h.sn]
    exact sn_of_isChain hr.chain (hr.sn_lt first (.head _)) hk

theorem IsEntry.offset_eq (h : IsEntry e run) (hr : IsRun snLen run) {k : ℕ} {loss : Loss}
    (hk : run[k]? = some loss) : e.offset snLen loss.sn = k := by
  have hlt : k < run.length := (List.getElem?_eq_some_iff.1 hk).1
  have := hr.length_le
  have := snLen.modulus_gt
  rw [h.getElem_sn hr hk, offset_add (h.sn_lt hr) (by omega)]

/-- The SNs of the entry are those of the run. -/
theorem IsEntry.coversSn_iff (h : IsEntry e run) (hr : IsRun snLen run) {sn : ℕ}
    (hs : sn < snLen.modulus) : e.CoversSn snLen sn ↔ ∃ loss ∈ run, loss.sn = sn := by
  have hc : e.count = run.length := h.2.count
  rw [RlcNackInfo.CoversSn, hc]
  constructor
  · intro hlt
    refine ⟨run[e.offset snLen sn], List.getElem_mem hlt, ?_⟩
    rw [h.getElem_sn hr (List.getElem?_eq_getElem hlt), add_offset (h.sn_lt hr) hs]
  · rintro ⟨loss, hl, rfl⟩
    obtain ⟨k, hk⟩ := List.mem_iff_getElem?.1 hl
    rw [h.offset_eq hr hk]
    exact (List.getElem?_eq_some_iff.1 hk).1

/-- What a loss of the run has is in the entry. -/
theorem IsEntry.covers (h : IsEntry e run) (hr : IsRun snLen run) {loss : Loss} (hl : loss ∈ run)
    {b : ℕ} (hb : b ≤ RLC_ALL_BYTES_MISSING) (hh : loss.Has b) : e.Covers snLen loss.sn b := by
  refine ⟨(h.coversSn_iff hr (hr.sn_lt loss hl)).2 ⟨loss, hl, rfl⟩, fun hseg => ?_⟩
  obtain ⟨k, hk⟩ := List.mem_iff_getElem?.1 hl
  rw [h.offset_eq hr hk]
  obtain ⟨hne, h⟩ := h
  rw [h.count]
  constructor
  · rintro rfl
    obtain rfl : run.head hne = loss := by
      rwa [← List.head?_eq_getElem?, List.head?_eq_some_head hne, Option.some.injEq] at hk
    cases hs : (run.head hne).isSegment with
    | true => exact (h.firstSeg hs).2 ▸ (hh hs).1
    | false =>
      have := hr.whole _ hl hs
      have := h.soStart_le
      omega
  · rintro rfl
    obtain rfl : run.getLast hne = loss := by
      rwa [← List.getLast?_eq_getElem?, List.getLast?_eq_some_getLast hne, Option.some.injEq] at hk
    cases hs : (run.getLast hne).isSegment with
    | true => exact (h.ends.seg hs).2 ▸ (hh hs).2
    | false => exact h.ends.whole hs hseg ▸ hb

theorem IsEntry.lastSn (h : IsEntry e run) (hr : IsRun snLen run) (hne : run ≠ []) :
    e.lastSn snLen = (run.getLast hne).sn := by
  have hk : run[run.length - 1]? = some (run.getLast hne) := by
    rw [← List.getLast?_eq_getElem?, List.getLast?_eq_some_getLast hne]
  rw [RlcNackInfo.lastSn, h.2.count, ← h.getElem_sn hr hk]

end

theorem entryBefore_of_lossBefore {amUl : RlcAmUl} {e e' : RlcNackInfo} {run run' : List Loss}
    (h : IsEntry e run) (hr : IsRun amUl.snLen run) (h' : IsEntry e' run')
    (hb : ∀ loss ∈ run, ∀ loss' ∈ run', amUl.LossBefore loss loss') : amUl.EntryBefore e e' := by
  have hlast := h.lastSn hr h.1
  obtain ⟨hne, h⟩ := h
  obtain ⟨hne', h'⟩ := h'
  rw [RlcAmUl.EntryBefore, hlast, h'.sn]
  rcases hb _ (List.getLast_mem hne) _ (List.head_mem hne') with hp | ⟨e1, e2, e3, e4⟩
  · exact .inl hp
  · obtain ⟨s1, s2⟩ := h.ends.seg e2
    obtain ⟨s3, s4⟩ := h'.firstSeg e3
    exact .inr ⟨e1, s1, s3, by omega⟩

/-! ## The runs of the scan -/

/-- The losses of the scan, cut where one does not join the other. -/
def runs (amUl : RlcAmUl) : List (List Loss) := (losses amUl).splitBy (joins amUl.snLen)

section

variable {amUl : RlcAmUl}

@[simp] theorem flatten_runs (amUl : RlcAmUl) : (runs amUl).flatten = losses amUl := List.flatten_splitBy _ _

theorem isRun_of_subset {run : List Loss}
    (hc : run.IsChain fun x y => joins amUl.snLen x y = true) (hs : run ⊆ losses amUl)
    (hl : run.length ≤ 255) : IsRun amUl.snLen run where
  chain := hc
  sn_lt _ h := losses_sn_lt (hs h)
  whole _ h := soStart_of_whole (mem_losses_iff.1 (hs h)).2.2
  length_le := hl

theorem subset_losses {run : List Loss} (h : run ∈ runs amUl) : run ⊆ losses amUl :=
  fun _ hl => flatten_runs amUl ▸ List.mem_flatten_of_mem h hl

theorem isRun_of_mem {run : List Loss} (h : run ∈ runs amUl) (hl : run.length ≤ 255) :
    IsRun amUl.snLen run :=
  isRun_of_subset (List.isChain_of_mem_splitBy h) (subset_losses h) hl

theorem runs_pairwise (amUl : RlcAmUl) :
    (runs amUl).Pairwise fun run run' => ∀ loss ∈ run, ∀ loss' ∈ run', amUl.LossBefore loss loss' := by
  have h := losses_pairwise amUl
  rw [← flatten_runs, List.pairwise_flatten] at h
  exact h.2

/-- The entries of short runs. -/
theorem entries_short {before part post : List (List Loss)}
    (h : runs amUl = before ++ (part ++ post)) (hs : ∀ run ∈ part, run.length < 255) :
    ∃ es, List.Forall₂ IsEntry es part ∧
      entries amUl.snLen (part ++ post).flatten = es ++ entries amUl.snLen post.flatten := by
  have hb : (before ++ (part ++ post)).IsChain
      fun a b => ∃ ha hb, joins amUl.snLen (a.getLast ha) (b.head hb) = false :=
    h ▸ List.isChain_getLast_head_splitBy (joins amUl.snLen) (losses amUl)
  replace hb := List.isChain_append.1 (List.isChain_append.1 hb).2.1
  rw [List.flatten_append]
  refine entries_runs (fun run hr => ?_) hb.1 fun run hr loss hl => ?_
  · have hm : run ∈ runs amUl := by
      rw [h]
      simp [hr]
    exact ⟨List.ne_nil_of_mem_splitBy hm, List.isChain_of_mem_splitBy hm,
      fun _ hl => losses_sn_lt (subset_losses hm hl), hs run hr⟩
  · cases post with
    | nil => cases hl
    | cons run' post =>
      obtain ⟨hne, hne', e⟩ := hb.2.2 run hr run' rfl
      rw [List.flatten_cons, List.head?_append_of_ne_nil _ hne', List.head?_eq_some_head hne'] at hl
      exact ⟨hne, Option.some.inj hl ▸ e⟩

/-- The entries of all runs, the ones up to `post` being short. -/
theorem entries_losses {part post : List (List Loss)} (h : runs amUl = part ++ post)
    (hs : ∀ run ∈ part, run.length < 255) :
    ∃ es, List.Forall₂ IsEntry es part ∧
      entries amUl.snLen (losses amUl) = es ++ entries amUl.snLen post.flatten := by
  rw [← flatten_runs, h]
  exact entries_short (show runs amUl = [] ++ (part ++ post) from h) hs

end

/-! ## Entries that stand for the losses -/

/-- The entry has all bytes of some losses, and no SN of which nothing is lost. -/
structure Stands (amUl : RlcAmUl) (e : RlcNackInfo) (ls : List Loss) : Prop where
  covers : ∀ loss ∈ ls, ∀ b ≤ RLC_ALL_BYTES_MISSING, loss.Has b → e.Covers amUl.snLen loss.sn b
  needed : ∀ sn < amUl.snLen.modulus, e.CoversSn amUl.snLen sn → ∃ loss ∈ losses amUl, loss.sn = sn

theorem IsEntry.stands {amUl : RlcAmUl} {e : RlcNackInfo} {run : List Loss} (h : IsEntry e run)
    (hr : IsRun amUl.snLen run) (hs : run ⊆ losses amUl) : Stands amUl e run where
  covers _ hl _ hb hh := h.covers hr hl hb hh
  needed sn hsn hc := by
    obtain ⟨loss, hl, e⟩ := (h.coversSn_iff hr hsn).1 hc
    exact ⟨loss, hs hl, e⟩

/-- Entries that stand for all losses, in their order, are sound. -/
theorem statusSound_of_stands {amUl : RlcAmUl} {sta : RlcUdxDlStaPdu} {parts : List (List Loss)}
    (hack : sta.ackSn = amUl.rxHighestStatus) (hf : List.Forall₂ (Stands amUl) sta.nacks parts)
    (hp : parts.flatten = losses amUl) (ho : sta.nacks.Pairwise amUl.EntryBefore) :
    StatusSound amUl sta where
  covered sn hsn hpos b hm := by
    rw [hack] at hpos
    obtain ⟨hb, loss, hl, rfl, hh⟩ := (missing_iff hsn hpos).1 hm
    rw [← hp, List.mem_flatten] at hl
    obtain ⟨part, hpart, hl⟩ := hl
    obtain ⟨e, he, hs⟩ := Lists.exists_of_mem_right hf hpart
    exact ⟨e, he, hs.covers loss hl b hb hh⟩
  needed e he sn hsn hc := by
    obtain ⟨part, -, hs⟩ := Lists.exists_of_mem_left hf he
    obtain ⟨loss, hl, rfl⟩ := hs.needed sn hsn hc
    rw [hack]
    have hpos := (mem_losses_iff.1 hl).2.1
    exact ⟨hpos, (not_fullyReceived_iff hsn hpos).2 ⟨loss, hl, rfl⟩⟩
  ordered := ho

end OaiCu.OduRlc
