import Mathlib.Data.List.Induction

/-!
# Machines that take calls

A machine has a state and takes one call after another. A call gives the next state and
what the environment sees of it, or it fails, and then the run is over.
-/

namespace Machine

universe u

variable {σ ι ο ε : Type*}

/-- A computation in two parts succeeds if both parts do. -/
theorem bind_ok {α β : Type u} {x : Except ε α} {f : α → Except ε β} {b : β}
    (h : x >>= f = .ok b) : ∃ a, x = .ok a ∧ f a = .ok b := by
  cases x with
  | error e => cases h
  | ok a => exact ⟨a, rfl, h⟩

/-- The state after a sequence of calls and everything the environment saw. -/
def run (step : σ → ι → Except ε (σ × List ο)) : σ → List ι → Except ε (σ × List ο)
  | s, [] => .ok (s, [])
  | s, i :: is =>
      match step s i with
      | .error e => .error e
      | .ok (s', out) =>
          match run step s' is with
          | .error e => .error e
          | .ok (s'', outs) => .ok (s'', out ++ outs)

/-- `P` holds of the state before each call, and of the call. -/
def Along (step : σ → ι → Except ε (σ × List ο)) (P : σ → ι → Prop) : σ → List ι → Prop
  | _, [] => True
  | s, i :: is => P s i ∧ ∀ s' out, step s i = .ok (s', out) → Along step P s' is

variable {step : σ → ι → Except ε (σ × List ο)} {P : σ → ι → Prop} {I : σ → Prop}

/-- A run that starts with `i` is the call `i` and a run. -/
theorem run_cons {s s'' : σ} {i : ι} {is : List ι} {outs : List ο}
    (h : run step s (i :: is) = .ok (s'', outs)) :
    ∃ s' out outs', step s i = .ok (s', out) ∧ run step s' is = .ok (s'', outs') ∧
      outs = out ++ outs' := by
  rw [run] at h
  split at h
  · cases h
  · rename_i s' out hstep
    split at h
    · cases h
    · rename_i s₂ outs' hrun
      injection h with h
      injection h with h1 h2
      exact ⟨s', out, outs', hstep, by rw [hrun, h1], h2.symm⟩

/-- Runs compose. -/
theorem run_append {s s' s'' : σ} {is js : List ι} {outs outs' : List ο}
    (h : run step s is = .ok (s', outs)) (h' : run step s' js = .ok (s'', outs')) :
    run step s (is ++ js) = .ok (s'', outs ++ outs') := by
  induction is generalizing s outs with
  | nil =>
      injection h with h
      injection h with h1 h2
      subst h1 h2
      exact h'
  | cons i is ih =>
      obtain ⟨s₁, out, outs₁, hstep, hrun, rfl⟩ := run_cons h
      rw [List.cons_append, run, hstep]
      simp only [ih hrun, List.append_assoc]

/-- What a call preserves when `P` holds before it, a run preserves along which `P`
holds. -/
theorem run_invariant
    (hstep : ∀ s i s' out, I s → P s i → step s i = .ok (s', out) → I s')
    {s s' : σ} {is : List ι} {outs : List ο} (hI : I s) (hP : Along step P s is)
    (h : run step s is = .ok (s', outs)) : I s' := by
  induction is generalizing s outs with
  | nil =>
      injection h with h
      injection h with h1 _
      exact h1 ▸ hI
  | cons i is ih =>
      obtain ⟨s₁, out, outs₁, hs, hrun, -⟩ := run_cons h
      exact ih (hstep s i s₁ out hI hP.1 hs) (hP.2 s₁ out hs) hrun

theorem along_and {Q : σ → ι → Prop} {s : σ} {is : List ι} (h : Along step P s is)
    (h' : Along step Q s is) : Along step (fun s i => P s i ∧ Q s i) s is := by
  induction is generalizing s with
  | nil => trivial
  | cons i is ih => exact ⟨⟨h.1, h'.1⟩, fun s' out hs => ih (h.2 s' out hs) (h'.2 s' out hs)⟩

/-- A condition that follows from another one as long as the invariant holds. -/
theorem along_imp {Q : σ → ι → Prop}
    (h : ∀ s i, I s → P s i → Q s i ∧ ∀ s' out, step s i = .ok (s', out) → I s') {s : σ}
    {is : List ι} (hI : I s) (hP : Along step P s is) : Along step Q s is := by
  induction is generalizing s with
  | nil => trivial
  | cons i is ih =>
      obtain ⟨hQ, hI'⟩ := h s i hI hP.1
      exact ⟨hQ, fun s' out hs => ih (hI' s' out hs) (hP.2 s' out hs)⟩

/-- Two conditions that agree as long as the second one held so far. -/
theorem along_iff_along {Q : σ → ι → Prop} (hiff : ∀ s i, I s → (P s i ↔ Q s i))
    (hstep : ∀ s i s' out, I s → Q s i → step s i = .ok (s', out) → I s') {s : σ}
    {is : List ι} (hI : I s) : Along step P s is ↔ Along step Q s is := by
  induction is generalizing s with
  | nil => exact Iff.rfl
  | cons i is ih =>
      rw [Along, Along, hiff s i hI]
      refine and_congr_right fun hQ => ?_
      exact forall_congr' fun s' => forall_congr' fun out => imp_congr_right fun hs =>
        ih (hstep s i s' out hI hQ hs)

/-- The same where a third condition holds. -/
theorem along_iff_along_of_along {Q R : σ → ι → Prop}
    (hiff : ∀ s i, I s → R s i → (P s i ↔ Q s i))
    (hstep : ∀ s i s' out, I s → R s i → Q s i → step s i = .ok (s', out) → I s') {s : σ}
    {is : List ι} (hI : I s) (hR : Along step R s is) :
    Along step P s is ↔ Along step Q s is := by
  induction is generalizing s with
  | nil => exact Iff.rfl
  | cons i is ih =>
      rw [Along, Along, hiff s i hI hR.1]
      refine and_congr_right fun hQ => ?_
      exact forall_congr' fun s' => forall_congr' fun out => imp_congr_right fun hs =>
        ih (hstep s i s' out hI hR.1 hQ hs) (hR.2 s' out hs)

/-- The same for the calls of a run, none of which fails. -/
theorem along_iff_along_of_run {Q : σ → ι → Prop}
    (hiff : ∀ s i s' out, I s → step s i = .ok (s', out) → (P s i ↔ Q s i))
    (hstep : ∀ s i s' out, I s → Q s i → step s i = .ok (s', out) → I s') {s s' : σ}
    {is : List ι} {outs : List ο} (hI : I s) (h : run step s is = .ok (s', outs)) :
    Along step P s is ↔ Along step Q s is := by
  induction is generalizing s outs with
  | nil => exact Iff.rfl
  | cons i is ih =>
      obtain ⟨s₁, out, outs₁, hs, hrun, -⟩ := run_cons h
      rw [Along, Along, hiff s i s₁ out hI hs]
      refine and_congr_right fun hQ => ?_
      refine forall_congr' fun s₂ => forall_congr' fun out₂ => imp_congr_right fun hs₂ => ?_
      obtain rfl : s₁ = s₂ := congrArg Prod.fst (Except.ok.inj (hs.symm.trans hs₂))
      exact ih (hstep s i s₁ out hI hQ hs) hrun

/-- A check of the state before each call, evaluated along the run. -/
def checkAlong (step : σ → ι → Except ε (σ × List ο)) (c : σ → ι → Bool) : σ → List ι → Bool
  | _, [] => true
  | s, i :: is =>
      c s i &&
        match step s i with
        | .error _ => true
        | .ok (s', _) => checkAlong step c s' is

theorem along_of_check {c : σ → ι → Bool} (hc : ∀ s i, c s i = true → P s i) {s : σ}
    {is : List ι} (h : checkAlong step c s is = true) : Along step P s is := by
  induction is generalizing s with
  | nil => trivial
  | cons i is ih =>
      rw [checkAlong, Bool.and_eq_true] at h
      refine ⟨hc s i h.1, fun s' out hs => ih ?_⟩
      rw [hs] at h
      exact h.2

/-- `Along` for a condition that always holds. -/
theorem along_of_forall (h : ∀ s i, P s i) : ∀ (is : List ι) (s : σ), Along step P s is
  | [], _ => trivial
  | i :: is, s => ⟨h s i, fun s' _ _ => along_of_forall h is s'⟩

/-- `Along` for a condition on the calls alone. -/
theorem along_of_mem {P : ι → Prop} : ∀ {is : List ι} {s : σ}, (∀ i ∈ is, P i) →
    Along step (fun _ i => P i) s is
  | [], _, _ => trivial
  | i :: _, _, h => ⟨h i List.mem_cons_self, fun _ _ _ =>
      along_of_mem fun j hj => h j (List.mem_cons_of_mem _ hj)⟩

/-- A machine that never fails from a state of the invariant has a run for every
sequence of calls. -/
theorem run_total
    (hstep : ∀ s i, I s → ∃ s' out, step s i = .ok (s', out) ∧ I s') :
    ∀ (is : List ι) {s : σ}, I s → ∃ s' outs, run step s is = .ok (s', outs) ∧ I s'
  | [], s, hI => ⟨s, [], rfl, hI⟩
  | i :: is, s, hI => by
      obtain ⟨s₁, out, hs, hI₁⟩ := hstep s i hI
      obtain ⟨s₂, outs, hrun, hI₂⟩ := run_total hstep is hI₁
      exact ⟨s₂, out ++ outs, by rw [run, hs]; simp only [hrun], hI₂⟩

/-- The same for calls that do not fail as long as `P` holds. -/
theorem run_total_along (hstep : ∀ s i, I s → P s i → ∃ s' out, step s i = .ok (s', out) ∧ I s') :
    ∀ (is : List ι) {s : σ}, I s → Along step P s is →
      ∃ s' outs, run step s is = .ok (s', outs) ∧ I s'
  | [], s, hI, _ => ⟨s, [], rfl, hI⟩
  | i :: is, s, hI, hP => by
      obtain ⟨s₁, out, hs, hI₁⟩ := hstep s i hI hP.1
      obtain ⟨s₂, outs, hrun, hI₂⟩ := run_total_along hstep is hI₁ (hP.2 s₁ out hs)
      exact ⟨s₂, out ++ outs, by rw [run, hs]; simp only [hrun], hI₂⟩

/-- A run fails at no call exactly if `Q` holds along it, where `Q` says that a call does not
fail. -/
theorem run_ok_iff_along {Q : σ → ι → Prop}
    (hiff : ∀ s i, I s → P s i → ((∃ s' out, step s i = .ok (s', out)) ↔ Q s i))
    (hstep : ∀ s i s' out, I s → P s i → step s i = .ok (s', out) → I s') :
    ∀ (is : List ι) {s : σ}, I s → Along step P s is →
      ((∃ s' outs, run step s is = .ok (s', outs)) ↔ Along step Q s is)
  | [], s, _, _ => iff_of_true ⟨s, [], rfl⟩ trivial
  | i :: is, s, hI, hP => by
      rw [Along, ← hiff s i hI hP.1]
      constructor
      · rintro ⟨s', outs, hrun⟩
        obtain ⟨s₁, out, outs₁, hs, hrun₁, -⟩ := run_cons hrun
        refine ⟨⟨s₁, out, hs⟩, fun s₂ out₂ hs₂ => ?_⟩
        obtain rfl : s₁ = s₂ := congrArg Prod.fst (Except.ok.inj (hs.symm.trans hs₂))
        exact (run_ok_iff_along hiff hstep is (hstep s i s₁ out hI hP.1 hs) (hP.2 s₁ out hs)).mp
          ⟨_, _, hrun₁⟩
      · rintro ⟨⟨s₁, out, hs⟩, hrest⟩
        obtain ⟨s₂, outs, hrun⟩ := (run_ok_iff_along hiff hstep is
          (hstep s i s₁ out hI hP.1 hs) (hP.2 s₁ out hs)).mpr (hrest s₁ out hs)
        exact ⟨s₂, out ++ outs, by rw [run, hs]; simp only [hrun]⟩

/-- If every call from the invariant either fails harmlessly or keeps the invariant, except where
`P` does not hold and it fails otherwise, then a run does not fail otherwise exactly if `P` holds
along it. -/
theorem errors_iff_along (harmless : ε → Prop)
    (hgood : ∀ s i, I s → P s i → (∃ e, step s i = .error e ∧ harmless e) ∨
      ∃ s' out, step s i = .ok (s', out) ∧ I s')
    (hbad : ∀ s i, I s → ¬ P s i → ∃ e, step s i = .error e ∧ ¬ harmless e) :
    ∀ (is : List ι) {s : σ}, I s →
      ((∀ e, run step s is = .error e → harmless e) ↔ Along step P s is)
  | [], s, _ => iff_of_true (fun _ h => by cases h) trivial
  | i :: is, s, hI => by
      by_cases hP : P s i
      · rw [Along, run]
        rcases hgood s i hI hP with ⟨e, he, hharm⟩ | ⟨s₁, out, hs, hI₁⟩
        · rw [he]
          refine iff_of_true (fun e' h => ?_) ⟨hP, fun _ _ h => by cases h⟩
          injection h with h
          exact h ▸ hharm
        · rw [hs, and_iff_right hP]
          have ih := errors_iff_along harmless hgood hbad is hI₁
          constructor
          · intro h s₂ out₂ hs₂
            injection hs₂ with hs₂
            injection hs₂ with h1 _
            refine h1 ▸ ih.mp fun e he => h e ?_
            simp only [he]
          · intro h e he
            dsimp only at he
            cases hr : run step s₁ is with
            | error e' =>
                rw [hr] at he
                injection he with he
                exact he ▸ ih.mpr (h s₁ out rfl) e' hr
            | ok r =>
                rw [hr] at he
                cases he
      · obtain ⟨e, he, hharm⟩ := hbad s i hI hP
        refine iff_of_false (fun h => hharm (h e ?_)) fun h => hP h.1
        rw [run, he]

/-- `Along` for the rest of a run. -/
theorem along_of_run {js : List ι} : ∀ {is : List ι} {s s' : σ} {outs : List ο},
    Along step P s (is ++ js) → run step s is = .ok (s', outs) → Along step P s' js
  | [], s, s', outs, h, hr => by
      injection hr with hr
      injection hr with h1 _
      exact h1 ▸ h
  | i :: is, s, s', outs, h, hr => by
      obtain ⟨s₁, out, outs₁, hs, hrun, -⟩ := run_cons hr
      exact along_of_run (h.2 s₁ out hs) hrun

theorem along_of_append {js : List ι} : ∀ {is : List ι} {s : σ},
    Along step P s (is ++ js) → Along step P s is
  | [], _, _ => trivial
  | _ :: _, _, h => ⟨h.1, fun s' out hs => along_of_append (h.2 s' out hs)⟩

/-- If all outputs of a call are good exactly when `P` holds before it, all outputs of a run
are good exactly when `P` holds along it. -/
theorem outputs_iff_along {Q : ο → Prop}
    (hstep : ∀ s i s' out, I s → step s i = .ok (s', out) →
      I s' ∧ ((∀ o ∈ out, Q o) ↔ P s i))
    {s s' : σ} {is : List ι} {outs : List ο} (hI : I s)
    (h : run step s is = .ok (s', outs)) : (∀ o ∈ outs, Q o) ↔ Along step P s is := by
  induction is generalizing s outs with
  | nil =>
      injection h with h
      injection h with _ h2
      subst h2
      exact iff_of_true (by simp) trivial
  | cons i is ih =>
      obtain ⟨s₁, out, outs₁, hs, hrun, rfl⟩ := run_cons h
      obtain ⟨hI₁, hiff⟩ := hstep s i s₁ out hI hs
      simp only [List.mem_append, or_imp, forall_and]
      rw [hiff, ih hI₁ hrun, Along]
      refine and_congr_right fun _ => ⟨fun ha s' out' hs' => ?_, fun ha => ha s₁ out hs⟩
      rw [hs] at hs'
      injection hs' with hs'
      injection hs' with h1 _
      exact h1 ▸ ha

/-- A machine whose calls are translated to those of another one. -/
theorem run_map {κ : Type*} (f : κ → ι) : ∀ (ks : List κ) (s : σ),
    run step s (ks.map f) = run (fun s k => step s (f k)) s ks
  | [], _ => rfl
  | k :: ks, s => by
      rw [List.map_cons, run, run]
      split
      · rfl
      · rw [run_map f ks]

theorem along_map {κ : Type*} (f : κ → ι) : ∀ (ks : List κ) (s : σ),
    Along step P s (ks.map f) ↔ Along (fun s k => step s (f k)) (fun s k => P s (f k)) s ks
  | [], _ => Iff.rfl
  | k :: ks, s => by
      rw [List.map_cons, Along, Along]
      simp only [along_map f ks]

/-- A run can be cut anywhere. -/
theorem run_split {s s'' : σ} {is js : List ι} {outs : List ο}
    (h : run step s (is ++ js) = .ok (s'', outs)) :
    ∃ s' o o', run step s is = .ok (s', o) ∧ run step s' js = .ok (s'', o') ∧
      outs = o ++ o' := by
  induction is generalizing s outs with
  | nil => exact ⟨s, [], outs, rfl, h, rfl⟩
  | cons i is ih =>
      obtain ⟨s₁, out, outs₁, hstep, hrun, rfl⟩ := run_cons h
      obtain ⟨s', o, o', h1, h2, rfl⟩ := ih hrun
      refine ⟨s', out ++ o, o', ?_, h2, by rw [List.append_assoc]⟩
      rw [run, hstep]
      simp only [h1]

theorem run_single {s s' : σ} {i : ι} {out : List ο} :
    run step s [i] = .ok (s', out) ↔ step s i = .ok (s', out) := by
  rw [run]
  split
  · rename_i e h
    rw [h]
  · rename_i s₁ o h
    rw [h, run]
    simp only [List.append_nil]

/-- The last call of a run. -/
theorem run_snoc {s s'' : σ} {is : List ι} {i : ι} {outs : List ο}
    (h : run step s (is ++ [i]) = .ok (s'', outs)) :
    ∃ s' o out, run step s is = .ok (s', o) ∧ step s' i = .ok (s'', out) ∧
      outs = o ++ out := by
  obtain ⟨s', o, out, h1, h2, h3⟩ := run_split h
  exact ⟨s', o, out, h1, run_single.1 h2, h3⟩

theorem run_snoc_of_step {s s' s'' : σ} {is : List ι} {i : ι} {outs out : List ο}
    (h : run step s is = .ok (s', outs)) (hs : step s' i = .ok (s'', out)) :
    run step s (is ++ [i]) = .ok (s'', outs ++ out) :=
  run_append h (run_single.2 hs)

theorem along_snoc {i : ι} : ∀ {is : List ι} {s : σ},
    Along step P s (is ++ [i]) ↔
      Along step P s is ∧ ∀ s' outs, run step s is = .ok (s', outs) → P s' i
  | [], s => by
      refine ⟨fun h => ⟨trivial, fun s' outs hr => ?_⟩, fun h => ⟨h.2 s [] rfl, ?_⟩⟩
      · injection hr with hr
        injection hr with h1 _
        exact h1 ▸ h.1
      · exact fun _ _ _ => trivial
  | j :: is, s => by
      rw [List.cons_append, Along, Along]
      constructor
      · rintro ⟨hP, h⟩
        refine ⟨⟨hP, fun s₁ out hs => (along_snoc.1 (h s₁ out hs)).1⟩, fun s' outs hr => ?_⟩
        obtain ⟨s₁, out, outs', hs, hrun, -⟩ := run_cons hr
        exact (along_snoc.1 (h s₁ out hs)).2 s' outs' hrun
      · rintro ⟨⟨hP, h⟩, h'⟩
        refine ⟨hP, fun s₁ out hs => along_snoc.2 ⟨h s₁ out hs, fun s' outs hr => ?_⟩⟩
        refine h' s' (out ++ outs) ?_
        rw [run, hs]
        simp only [hr]

/-- An invariant that looks back at the calls made so far and what came of them. -/
theorem history_invariant {J : List ι → σ → List ο → Prop} {s₀ : σ} (h0 : J [] s₀ [])
    (hstep : ∀ is i s s' outs out, run step s₀ is = .ok (s, outs) → J is s outs → P s i →
      step s i = .ok (s', out) → J (is ++ [i]) s' (outs ++ out))
    {is : List ι} {s : σ} {outs : List ο} (hP : Along step P s₀ is)
    (h : run step s₀ is = .ok (s, outs)) : J is s outs := by
  induction is using List.reverseRecOn generalizing s outs with
  | nil =>
      injection h with h
      injection h with h1 h2
      exact h1 ▸ h2 ▸ h0
  | append_singleton is i ih =>
      obtain ⟨s', o, out, h1, hs, rfl⟩ := run_snoc h
      obtain ⟨hP, hPi⟩ := along_snoc.1 hP
      exact hstep is i s' s o out h1 (ih hP h1) (hPi s' o h1) hs

/-- `J` is a property of the state and of what the environment saw so far. If a call keeps it, or ends
the run harmlessly, exactly when `P` holds before the call, then it holds all along a run that does
not end otherwise exactly when `P` does. -/
theorem journal_iff_along (J : σ → List ο → Prop) (harmless : ε → Prop)
    (hok : ∀ s outs i s' out, J s outs → step s i = .ok (s', out) → (J s' (outs ++ out) ↔ P s i))
    (herr : ∀ s outs i e, J s outs → step s i = .error e → (harmless e ↔ P s i))
    {is : List ι} {s : σ} {outs : List ο} (hJ : J s outs) :
    ((∀ e, run step s is = .error e → harmless e) ∧
      ∀ pre s' out, pre <+: is → run step s pre = .ok (s', out) → J s' (outs ++ out)) ↔
    Along step P s is := by
  induction is generalizing s outs with
  | nil =>
      refine iff_of_true ⟨fun e h => (by cases h), fun pre s' out hpre hr => ?_⟩ trivial
      obtain rfl := List.prefix_nil.mp hpre
      obtain ⟨rfl, rfl⟩ := Prod.mk.inj (Except.ok.inj hr)
      rwa [List.append_nil]
  | cons i is ih =>
      rw [Along]
      cases hs : step s i with
      | error e =>
          have hrun : run step s (i :: is) = .error e := by rw [run, hs]
          rw [hrun]
          constructor
          · intro h
            exact ⟨(herr s outs i e hJ hs).mp (h.1 e rfl), nofun⟩
          · intro h
            refine ⟨fun e' he => ?_, fun pre s' out hpre hr => ?_⟩
            · exact Except.error.inj he ▸ (herr s outs i e hJ hs).mpr h.1
            · cases pre with
              | nil =>
                  obtain ⟨rfl, rfl⟩ := Prod.mk.inj (Except.ok.inj hr)
                  rwa [List.append_nil]
              | cons j pre =>
                  obtain ⟨rfl, -⟩ := List.cons_prefix_cons.mp hpre
                  obtain ⟨s₁, o, o', h₁, -⟩ := run_cons hr
                  cases hs.symm.trans h₁
      | ok r =>
          obtain ⟨s₁, out⟩ := r
          constructor
          · rintro ⟨hharm, hall⟩
            have hJ₁ : J s₁ (outs ++ out) := hall [i] s₁ out
              ⟨is, rfl⟩ (run_single.2 hs)
            refine ⟨(hok s outs i s₁ out hJ hs).mp hJ₁, fun s₂ out₂ h₂ => ?_⟩
            obtain ⟨rfl, rfl⟩ := Prod.mk.inj (Except.ok.inj h₂)
            refine (ih hJ₁).mp ⟨fun e he => hharm e ?_, fun pre s' o hpre hr => ?_⟩
            · rw [run, hs]
              simp only [he]
            · rw [List.append_assoc]
              refine hall (i :: pre) s' (out ++ o) (List.cons_prefix_cons.mpr ⟨rfl, hpre⟩) ?_
              rw [run, hs]
              simp only [hr]
          · rintro ⟨hP, hrest⟩
            have hJ₁ : J s₁ (outs ++ out) := (hok s outs i s₁ out hJ hs).mpr hP
            obtain ⟨hharm, hall⟩ := (ih hJ₁).mpr (hrest s₁ out rfl)
            refine ⟨fun e he => hharm e ?_, fun pre s' o hpre hr => ?_⟩
            · rw [run, hs] at he
              dsimp only at he
              cases hr : run step s₁ is with
              | error e' =>
                  rw [hr] at he
                  exact congrArg _ (Except.error.inj he)
              | ok r =>
                  rw [hr] at he
                  cases he
            · cases pre with
              | nil =>
                  obtain ⟨rfl, rfl⟩ := Prod.mk.inj (Except.ok.inj hr)
                  rwa [List.append_nil]
              | cons j pre =>
                  obtain ⟨rfl, htail⟩ := List.cons_prefix_cons.mp hpre
                  obtain ⟨s₂, o₁, o₂, h₁, hrest₁, rfl⟩ := run_cons hr
                  obtain ⟨rfl, rfl⟩ := Prod.mk.inj (Except.ok.inj (hs.symm.trans h₁))
                  rw [← List.append_assoc]
                  exact hall pre s' o₂ htail hrest₁

/-- `Q` is a property of the calls made so far. If a call keeps it exactly when `P` holds
before the call, then it holds all along exactly when `P` does. -/
theorem prefixes_iff_along {Q : List ι → Prop} {s₀ : σ} (h0 : Q [])
    (hrun : ∀ is, Q is → ∃ s outs, run step s₀ is = .ok (s, outs))
    (hstep : ∀ is i s outs, Along step P s₀ is → run step s₀ is = .ok (s, outs) →
      (Q (is ++ [i]) ↔ P s i)) (is : List ι) :
    (∀ pre, pre <+: is → Q pre) ↔ Along step P s₀ is := by
  induction is using List.reverseRecOn with
  | nil =>
      refine iff_of_true (fun pre hpre => ?_) trivial
      rw [List.prefix_nil.1 hpre]
      exact h0
  | append_singleton is i ih =>
      rw [along_snoc, ← ih]
      constructor
      · intro h
        have hpre : ∀ pre, pre <+: is → Q pre :=
          fun pre hpre => h pre (hpre.trans (List.prefix_append is [i]))
        refine ⟨hpre, fun s outs hr => ?_⟩
        exact (hstep is i s outs (ih.1 hpre) hr).1 (h _ (List.prefix_refl _))
      · rintro ⟨hpre, hP⟩ pre hp
        rcases List.prefix_concat_iff.1 hp with rfl | hp
        · obtain ⟨s, outs, hr⟩ := hrun is (hpre is (List.prefix_refl _))
          exact (hstep is i s outs (ih.1 hpre) hr).2 (hP s outs hr)
        · exact hpre pre hp

end Machine
