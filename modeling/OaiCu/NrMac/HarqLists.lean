import OaiCu.NrMac.NrList

/-!
# The HARQ processes of a UE

The scheduler keeps the processes of a direction in three lists: those that are free, those whose
feedback is awaited and those to be sent again. Every process is in one of them, and its round and
its flag `is_waiting` tell in which.
-/

namespace OaiCu.NrMac

/-- The three lists of a direction (`available_ul_harq` and so on). -/
structure HarqLists where
  available : NrList
  feedback : NrList
  retrans : NrList
  deriving Repr

/-- nr_rv_round_map: the redundancy version of a round. -/
def nrRvRoundMap : List ℕ := [0, 2, 3, 1]

/-- The process of a transmission, taken out of its list: the one that was chosen, or else the first
free one. -/
def HarqLists.take (l : HarqLists) (round : ℕ → ℕ) : Option ℕ → Except MacErr (ℕ × HarqLists)
  | none =>
      match l.available.head with
      | none => .error .noFreeHarq
      | some harqId => do
          let available ← l.available.removeFront
          .ok (harqId, { l with available := available })
  | some harqId =>
      if round harqId = 0 then do
        let available ← l.available.remove harqId
        .ok (harqId, { l with available := available })
      else do
        let retrans ← l.retrans.remove harqId
        .ok (harqId, { l with retrans := retrans })

/-- The lists partition the ids below `n`. A process waits while it is in the list for feedback, a
free process is at round 0, and one to be sent again is at a round between 1 and
`harqRoundMax - 1`. -/
structure Partition (harqRoundMax n : ℕ) (l : HarqLists) (waiting : ℕ → Bool) (round : ℕ → ℕ)
    (av fb rt : List ℕ) : Prop where
  available : l.available.Holds av
  feedback : l.feedback.Holds fb
  retrans : l.retrans.Holds rt
  sizes : l.available.next.length = n ∧ l.feedback.next.length = n ∧ l.retrans.next.length = n
  perm : (av ++ (fb ++ rt)).Perm (List.range n)
  waiting_iff : ∀ p < n, waiting p = true ↔ p ∈ fb
  round_available : ∀ p ∈ av, round p = 0
  round_retrans : ∀ p ∈ rt, 1 ≤ round p ∧ round p + 1 ≤ harqRoundMax
  round_feedback : ∀ p ∈ fb, round p = 0 ∨ round p < harqRoundMax

namespace Partition

variable {harqRoundMax n : ℕ} {l : HarqLists} {waiting : ℕ → Bool} {round : ℕ → ℕ}
  {av fb rt rt' : List ℕ} {p : ℕ}

section

variable (h : Partition harqRoundMax n l waiting round av fb rt)
include h

theorem nodup : (av ++ (fb ++ rt)).Nodup := h.perm.nodup_iff.mpr List.nodup_range

theorem lt_of_available (hp : p ∈ av) : p < n :=
  List.mem_range.mp (h.perm.mem_iff.mp (List.mem_append_left _ hp))

theorem lt_of_feedback (hp : p ∈ fb) : p < n :=
  List.mem_range.mp (h.perm.mem_iff.mp (List.mem_append_right _ (List.mem_append_left _ hp)))

theorem lt_of_retrans (hp : p ∈ rt) : p < n :=
  List.mem_range.mp (h.perm.mem_iff.mp (List.mem_append_right _ (List.mem_append_right _ hp)))

theorem not_feedback_of_available (hp : p ∈ av) : p ∉ fb := fun hf =>
  (List.nodup_append.mp h.nodup).2.2 p hp p (List.mem_append_left _ hf) rfl

theorem not_retrans_of_available (hp : p ∈ av) : p ∉ rt := fun hr =>
  (List.nodup_append.mp h.nodup).2.2 p hp p (List.mem_append_right _ hr) rfl

theorem not_retrans_of_feedback (hp : p ∈ fb) : p ∉ rt := fun hr =>
  (List.nodup_append.mp (List.nodup_append.mp h.nodup).2.1).2.2 p hp p hr rfl

/-- A process that does not wait is free or to be sent again, and the round tells which. -/
theorem retrans_iff_round (hp : p < n) (hw : p ∉ fb) : p ∈ rt ↔ round p ≠ 0 := by
  have hmem : p ∈ av ++ (fb ++ rt) := h.perm.mem_iff.mpr (List.mem_range.mpr hp)
  constructor
  · intro hr
    have := (h.round_retrans p hr).1
    omega
  · intro hr
    rcases List.mem_append.mp hmem with ha | hmem
    · exact absurd (h.round_available p ha) hr
    · exact (List.mem_append.mp hmem).resolve_left hw

/-- Every round is below the limit, or 0. -/
theorem round_lt (hp : p < n) : round p = 0 ∨ round p < harqRoundMax := by
  have hmem : p ∈ av ++ (fb ++ rt) := h.perm.mem_iff.mpr (List.mem_range.mpr hp)
  rcases List.mem_append.mp hmem with ha | hmem
  · exact .inl (h.round_available p ha)
  · rcases List.mem_append.mp hmem with hf | hr
    · exact h.round_feedback p hf
    · exact .inr (h.round_retrans p hr).2

/-- Only a limit above 4 leads to a round without a redundancy version. -/
theorem lt_of_rv_none (hp : p < n) (hnone : nrRvRoundMap[round p]? = none) :
    4 < harqRoundMax := by
  have hround : 4 ≤ round p := List.getElem?_eq_none_iff.mp hnone
  rcases h.round_lt hp with h0 | hlt
  · omega
  · exact Nat.lt_of_le_of_lt hround hlt

theorem head_available : l.available.head = av.head? := h.available.head

theorem head_feedback : l.feedback.head = fb.head? := h.feedback.head

theorem head_retrans : l.retrans.head = rt.head? := h.retrans.head

end

/-- The flags and the rounds tell what is under way. -/
theorem underway_unique {av' fb' : List ℕ} (h : Partition harqRoundMax n l waiting round av fb rt)
    (h' : Partition harqRoundMax n l waiting round av' fb' rt') :
    (fb ++ rt).Perm (fb' ++ rt') := by
  have hfb : ∀ q < n, q ∈ fb ↔ q ∈ fb' := fun q hq =>
    (h.waiting_iff q hq).symm.trans (h'.waiting_iff q hq)
  have hsub : ∀ {a b c a' b' c' : List ℕ}, Partition harqRoundMax n l waiting round a b c →
      Partition harqRoundMax n l waiting round a' b' c' → (∀ q < n, q ∈ b ↔ q ∈ b') →
      ∀ q ∈ b ++ c, q ∈ b' ++ c' := by
    intro a b c a' b' c' h h' hb q hq
    by_cases hqb : q ∈ b
    · exact List.mem_append_left _ ((hb q (h.lt_of_feedback hqb)).mp hqb)
    · have hqc : q ∈ c := (List.mem_append.mp hq).resolve_left hqb
      have hlt := h.lt_of_retrans hqc
      have hqb' : q ∉ b' := fun hin => hqb ((hb q hlt).mpr hin)
      refine List.mem_append_right _ ((h'.retrans_iff_round hlt hqb').mpr ?_)
      exact (h.retrans_iff_round hlt hqb).mp hqc
  refine (List.perm_ext_iff_of_nodup (List.nodup_append.mp h.nodup).2.1
    (List.nodup_append.mp h'.nodup).2.1).mpr fun q => ⟨hsub h h' hfb q, ?_⟩
  exact hsub h' h (fun q hq => (hfb q hq).symm) q

/-! ## What the scheduler does -/

/-- A process comes to the end of the list for feedback and waits. -/
theorem waiting_update (hw : ∀ q < n, waiting q = true ↔ q ∈ fb) (q : ℕ) (hq : q < n) :
    Function.update waiting p true q = true ↔ q ∈ fb ++ [p] := by
  rw [List.mem_append, List.mem_singleton]
  rcases eq_or_ne q p with rfl | hne
  · simp
  · rw [Function.update_of_ne hne, hw q hq]
    simp [hne]

/-- The first free process is sent for the first time. -/
theorem send_new (h : Partition harqRoundMax n l waiting round (p :: av) fb rt) :
    ∃ a, l.available.removeFront = .ok a ∧
      Partition harqRoundMax n { l with available := a, feedback := l.feedback.addTail p }
        (Function.update waiting p true) round av (fb ++ [p]) rt := by
  obtain ⟨a, ha, hholds, hlen⟩ := h.available.removeFront
  have hp : p < n := h.lt_of_available List.mem_cons_self
  refine ⟨a, ha, hholds, ?_, h.retrans, ?_, ?_, waiting_update h.waiting_iff, ?_,
    h.round_retrans, ?_⟩
  · exact h.feedback.addTail (h.sizes.2.1 ▸ hp) (h.not_feedback_of_available List.mem_cons_self)
  · refine ⟨hlen.trans h.sizes.1, ?_, h.sizes.2.2⟩
    simpa [NrList.addTail] using h.sizes.2.1
  · refine List.Perm.trans ?_ h.perm
    rw [List.append_assoc, List.singleton_append, List.cons_append, ← List.append_assoc,
      ← List.append_assoc]
    exact List.perm_middle
  · exact fun q hq => h.round_available q (List.mem_cons_of_mem p hq)
  · intro q hq
    rcases List.mem_append.mp hq with hq | hq
    · exact h.round_feedback q hq
    · rw [List.mem_singleton.mp hq]
      exact .inl (h.round_available p List.mem_cons_self)

/-- A process that is to be sent again is sent. -/
theorem send_again (h : Partition harqRoundMax n l waiting round av fb (rt ++ p :: rt')) :
    ∃ r, l.retrans.remove p = .ok r ∧
      Partition harqRoundMax n { l with retrans := r, feedback := l.feedback.addTail p }
        (Function.update waiting p true) round av (fb ++ [p]) (rt ++ rt') := by
  obtain ⟨r, hr, hholds, hlen⟩ := h.retrans.remove
  have hmem : p ∈ rt ++ p :: rt' := List.mem_append_right _ List.mem_cons_self
  have hp : p < n := h.lt_of_retrans hmem
  have hsub : ∀ q ∈ rt ++ rt', q ∈ rt ++ p :: rt' := fun q hq => by
    rw [List.mem_append] at hq ⊢
    exact hq.imp_right (List.mem_cons_of_mem p)
  refine ⟨r, hr, h.available, ?_, hholds, ?_, ?_, waiting_update h.waiting_iff,
    h.round_available, fun q hq => h.round_retrans q (hsub q hq), ?_⟩
  · exact h.feedback.addTail (h.sizes.2.1 ▸ hp) fun hf => h.not_retrans_of_feedback hf hmem
  · refine ⟨h.sizes.1, ?_, hlen.trans h.sizes.2.2⟩
    simpa [NrList.addTail] using h.sizes.2.1
  · refine (List.Perm.append_left av ?_).trans h.perm
    rw [List.append_assoc, List.singleton_append]
    exact List.Perm.append_left fb List.perm_middle.symm
  · intro q hq
    rcases List.mem_append.mp hq with hq | hq
    · exact h.round_feedback q hq
    · rw [List.mem_singleton.mp hq]
      exact .inr (h.round_retrans p hmem).2

/-- A process is taken unless a free one is needed and there is none. -/
theorem take (h : Partition harqRoundMax n l waiting round av fb rt) (pid : Option ℕ)
    (hpid : ∀ p, pid = some p → p ∈ rt) (hfree : pid = none → av ≠ []) :
    ∃ (p : ℕ) (l' : HarqLists) (av' rt' : List ℕ), l.take round pid = .ok (p, l') ∧
      l'.feedback = l.feedback ∧ p < n ∧ p ∉ fb ∧ (round p ≠ 0 → p ∈ rt) ∧
      (∀ q ∈ av', q ∈ av) ∧ (∀ q ∈ rt', q ∈ rt) ∧ (∀ q, pid = some q → p = q) ∧
      Partition harqRoundMax n { l' with feedback := l.feedback.addTail p }
        (Function.update waiting p true) round av' (fb ++ [p]) rt' := by
  cases pid with
  | none =>
      obtain ⟨p, av, rfl⟩ := List.exists_cons_of_ne_nil (hfree rfl)
      obtain ⟨a, ha, hparts⟩ := h.send_new
      refine ⟨p, { l with available := a }, av, rt, ?_, rfl, h.lt_of_available List.mem_cons_self,
        h.not_feedback_of_available List.mem_cons_self, fun hr => ?_,
        fun q hq => List.mem_cons_of_mem p hq, fun _ hq => hq, nofun, hparts⟩
      · rw [HarqLists.take, h.head_available]
        change (l.available.removeFront >>= _) = _
        rw [ha]
        rfl
      · exact absurd (h.round_available p List.mem_cons_self) hr
  | some p =>
      have hp : p ∈ rt := hpid p rfl
      have hround : round p ≠ 0 := Nat.ne_of_gt (h.round_retrans p hp).1
      obtain ⟨rt₁, rt₂, rfl⟩ := List.append_of_mem hp
      obtain ⟨r, hr, hparts⟩ := h.send_again
      refine ⟨p, { l with retrans := r }, av, rt₁ ++ rt₂, ?_, rfl, h.lt_of_retrans hp,
        fun hf => h.not_retrans_of_feedback hf hp, fun _ => hp, fun _ hq => hq, fun q hq => ?_,
        fun _ hq => Option.some.inj hq, hparts⟩
      · rw [HarqLists.take, if_neg hround, hr]
        rfl
      · rw [List.mem_append] at hq ⊢
        exact hq.imp_right (List.mem_cons_of_mem p)

/-- What is under way after a process was sent: a process that was to be sent again was under way
before, and another one was not. -/
theorem underway_perm {l' : HarqLists} {waiting' : ℕ → Bool} {round' : ℕ → ℕ} {av' : List ℕ}
    (h : Partition harqRoundMax n l waiting round av fb rt)
    (h' : Partition harqRoundMax n l' waiting' round' av' (fb ++ [p]) rt')
    (hav : ∀ q ∈ av', q ∈ av) (hrt : ∀ q ∈ rt', q ∈ rt) :
    (fb ++ [p] ++ rt').Perm (if p ∈ rt then fb ++ rt else p :: (fb ++ rt)) := by
  have hnd := (List.nodup_append.mp h.nodup).2.1
  have hnd' := (List.nodup_append.mp h'.nodup).2.1
  have hfb : p ∉ fb := fun hp =>
    (List.nodup_append.mp (List.nodup_append.mp hnd').1).2.2 p hp p (List.mem_singleton_self p) rfl
  have hmem : ∀ q, q ∈ fb ++ [p] ++ rt' ↔ q = p ∨ q ∈ fb ++ rt := by
    intro q
    simp only [List.mem_append, List.mem_singleton]
    constructor
    · rintro ((hq | hq) | hq)
      · exact .inr (.inl hq)
      · exact .inl hq
      · exact .inr (.inr (hrt q hq))
    · rintro (hq | hq | hq)
      · exact .inl (.inr hq)
      · exact .inl (.inl hq)
      · -- it is in one of the new lists, and not in the first one
        have hin : q ∈ av' ++ (fb ++ [p] ++ rt') :=
          h'.perm.mem_iff.mpr (List.mem_range.mpr (h.lt_of_retrans hq))
        rcases List.mem_append.mp hin with ha | hin
        · exact absurd hq (h.not_retrans_of_available (hav q ha))
        · simpa only [List.mem_append, List.mem_singleton] using hin
  split
  · rename_i hp
    refine (List.perm_ext_iff_of_nodup hnd' hnd).mpr fun q => (hmem q).trans ?_
    constructor
    · rintro (rfl | hq)
      · exact List.mem_append_right fb hp
      · exact hq
    · exact .inr
  · rename_i hp
    have hnew : p ∉ fb ++ rt := fun hin => (List.mem_append.mp hin).elim hfb hp
    refine (List.perm_ext_iff_of_nodup hnd' (List.nodup_cons.mpr ⟨hnew, hnd⟩)).mpr fun q => ?_
    rw [hmem q, List.mem_cons]

/-- Without a chosen process and without a free one nothing can be taken. -/
theorem take_none (h : Partition harqRoundMax n l waiting round [] fb rt) :
    l.take round none = .error .noFreeHarq := by
  rw [HarqLists.take, h.head_available]
  rfl

/-! ## What the feedback does -/

section

variable (h : Partition harqRoundMax n l waiting round av (p :: fb) rt)
include h

theorem waiting_head : waiting p = true :=
  (h.waiting_iff p (h.lt_of_feedback List.mem_cons_self)).mpr List.mem_cons_self

/-- The first process of the list for feedback does not wait any more. -/
theorem waiting_pop (q : ℕ) (hq : q < n) :
    Function.update waiting p false q = true ↔ q ∈ fb := by
  have hp : p ∉ fb := (List.nodup_cons.mp h.feedback.nodup).1
  rcases eq_or_ne q p with rfl | hne
  · simp [hp]
  · rw [Function.update_of_ne hne, h.waiting_iff q hq, List.mem_cons]
    simp [hne]

/-- The process is done and free again. -/
theorem done {round' : ℕ → ℕ} (hround : round' = Function.update round p 0) :
    ∃ f, l.feedback.removeFront = .ok f ∧
      Partition harqRoundMax n { l with feedback := f, available := l.available.addTail p }
        (Function.update waiting p false) round' (av ++ [p]) fb rt := by
  obtain ⟨f, hf, hholds, hlen⟩ := h.feedback.removeFront
  have hp : p < n := h.lt_of_feedback List.mem_cons_self
  have hav : p ∉ av := fun ha => h.not_feedback_of_available ha List.mem_cons_self
  have hne : ∀ q ∈ fb ++ rt, q ≠ p := fun q hq => by
    rintro rfl
    have hnd := (List.nodup_append.mp h.nodup).2.1
    exact (List.nodup_cons.mp hnd).1 hq
  subst hround
  refine ⟨f, hf, h.available.addTail (h.sizes.1 ▸ hp) hav, hholds, h.retrans, ?_, ?_,
    h.waiting_pop, ?_, ?_, ?_⟩
  · refine ⟨?_, hlen.trans h.sizes.2.1, h.sizes.2.2⟩
    simpa [NrList.addTail] using h.sizes.1
  · rw [List.append_assoc]
    exact h.perm
  · intro q hq
    rcases List.mem_append.mp hq with hq | hq
    · rw [Function.update_of_ne (ne_of_mem_of_not_mem hq hav)]
      exact h.round_available q hq
    · rw [List.mem_singleton.mp hq, Function.update_self]
  · intro q hq
    rw [Function.update_of_ne (hne q (List.mem_append_right _ hq))]
    exact h.round_retrans q hq
  · intro q hq
    rw [Function.update_of_ne (hne q (List.mem_append_left _ hq))]
    exact h.round_feedback q (List.mem_cons_of_mem p hq)

/-- The process has failed and has a round left. -/
theorem retry {round' : ℕ → ℕ} (hround : round' = Function.update round p (round p + 1))
    (hlt : ¬ round p + 1 ≥ harqRoundMax) :
    ∃ f, l.feedback.removeFront = .ok f ∧
      Partition harqRoundMax n { l with feedback := f, retrans := l.retrans.addTail p }
        (Function.update waiting p false) round' av fb (rt ++ [p]) := by
  obtain ⟨f, hf, hholds, hlen⟩ := h.feedback.removeFront
  have hp : p < n := h.lt_of_feedback List.mem_cons_self
  have hrt : p ∉ rt := h.not_retrans_of_feedback List.mem_cons_self
  have hne : ∀ q ∈ av, q ≠ p := fun q hq => by
    rintro rfl
    exact h.not_feedback_of_available hq List.mem_cons_self
  have hfb : ∀ q ∈ fb, q ≠ p := fun q hq => by
    rintro rfl
    exact (List.nodup_cons.mp h.feedback.nodup).1 hq
  subst hround
  refine ⟨f, hf, h.available, hholds, h.retrans.addTail (h.sizes.2.2 ▸ hp) hrt, ?_, ?_,
    h.waiting_pop, ?_, ?_, ?_⟩
  · refine ⟨h.sizes.1, hlen.trans h.sizes.2.1, ?_⟩
    simpa [NrList.addTail] using h.sizes.2.2
  · refine (List.Perm.append_left av ?_).trans h.perm
    rw [← List.append_assoc, List.cons_append]
    exact List.perm_append_singleton p _
  · intro q hq
    rw [Function.update_of_ne (hne q hq)]
    exact h.round_available q hq
  · intro q hq
    rcases List.mem_append.mp hq with hq | hq
    · rw [Function.update_of_ne (ne_of_mem_of_not_mem hq hrt)]
      exact h.round_retrans q hq
    · rw [List.mem_singleton.mp hq, Function.update_self]
      omega
  · intro q hq
    rw [Function.update_of_ne (hfb q hq)]
    exact h.round_feedback q (List.mem_cons_of_mem p hq)

end

/-! ## More processes -/

/-- The lists get longer, and the new processes are free. -/
theorem grow (h : Partition harqRoundMax n l waiting round av fb rt) {n' : ℕ} (hle : n ≤ n')
    (hfresh : ∀ p, n ≤ p → waiting p = false ∧ round p = 0) :
    Partition harqRoundMax n'
      { available :=
          (List.range' n (n' - n)).foldl NrList.addTail (l.available.resize n')
        feedback := l.feedback.resize n'
        retrans := l.retrans.resize n' }
      waiting round (av ++ List.range' n (n' - n)) fb rt := by
  have hlen : ∀ {l' : NrList} {xs : List ℕ}, l'.Holds xs → l'.next.length = n →
      (l'.resize n').Holds xs ∧ (l'.resize n').next.length = n' := by
    intro l' xs hl' hn
    have hres := hl'.resize (hl'.len.trans hn ▸ hle)
    exact ⟨hres, hres.len.symm⟩
  have hnew : ∀ p ∈ List.range' n (n' - n), n ≤ p ∧ p < n' := fun p hp => by
    rw [List.mem_range'_1] at hp
    omega
  obtain ⟨hav, hav'⟩ := hlen h.available h.sizes.1
  have hnd : (av ++ List.range' n (n' - n)).Nodup := by
    refine List.nodup_append.mpr ⟨h.available.nodup, List.nodup_range', fun p hp q hq => ?_⟩
    have := h.lt_of_available hp
    have := (hnew q hq).1
    omega
  obtain ⟨hall, hall'⟩ := hav.addTails (fun p hp => hav'.symm ▸ (hnew p hp).2) hnd
  refine ⟨hall, (hlen h.feedback h.sizes.2.1).1, (hlen h.retrans h.sizes.2.2).1,
    ⟨hall'.trans hav', (hlen h.feedback h.sizes.2.1).2, (hlen h.retrans h.sizes.2.2).2⟩, ?_, ?_,
    ?_, h.round_retrans, h.round_feedback⟩
  · have hrange : List.range n ++ List.range' n (n' - n) = List.range n' := by
      have := List.range'_append_1 (s := 0) (m := n) (n := n' - n)
      rwa [Nat.zero_add, Nat.add_sub_cancel' hle, ← List.range_eq_range',
        ← List.range_eq_range'] at this
    rw [← hrange, List.append_assoc]
    refine (List.Perm.append_left av List.perm_append_comm).trans ?_
    rw [← List.append_assoc]
    exact h.perm.append_right _
  · intro p _
    by_cases hp : p < n
    · exact h.waiting_iff p hp
    · refine iff_of_false ?_ fun hf => hp (h.lt_of_feedback hf)
      rw [(hfresh p (Nat.le_of_not_lt hp)).1]
      exact Bool.false_ne_true
  · intro p hp
    rcases List.mem_append.mp hp with hp | hp
    · exact h.round_available p hp
    · exact (hfresh p (hnew p hp).1).2

end Partition

end OaiCu.NrMac
