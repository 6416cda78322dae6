import OaiCu.OduRlc.AmRecv
import OaiCu.OduRlc.Losses
import Mathlib.Data.Nat.Find

/-!
# The window of the AM uplink

The two loops behind a complete SDU both come to the first SN that is not fully received:
`updRxHighestStatus` from `rxHighestStatus` on, and `updRxNext` from `rxNext` on. What is not
received at `rxNextHighestRcvd` stops them.
-/

namespace OaiCu.OduRlc

theorem SnLen.winSz_cases (snLen : SnLen) :
    snLen.winSz = 2048 ∧ snLen.modulus = 4096 ∨
      snLen.winSz = 131072 ∧ snLen.modulus = 262144 := by
  cases snLen
  · exact .inl ⟨rfl, rfl⟩
  · exact .inr ⟨rfl, rfl⟩

theorem SnLen.le_snModMask_iff {snLen : SnLen} {x : ℕ} :
    x ≤ snLen.snModMask ↔ x < snLen.modulus := by
  have := snLen.modulus_pos
  rw [snModMask]
  omega

namespace AmUl

variable {snLen : SnLen} {α : Type*} {amUl amUl' : AmUl snLen α}

/-! ## The distance from `rxNext` -/

theorem pos_eq (hb : amUl.rxNext < snLen.modulus) {x : ℕ} (hx : x < snLen.modulus) :
    amUl.pos x = (x + snLen.modulus - amUl.rxNext) % snLen.modulus := by
  rw [pos, modamr_eq hx hb]

theorem pos_lt (amUl : AmUl snLen α) (x : ℕ) : amUl.pos x < snLen.modulus := by
  rw [pos, modamr, SnLen.and_mask]
  exact Nat.mod_lt _ snLen.modulus_pos

theorem pos_rxNext (hb : amUl.rxNext < snLen.modulus) : amUl.pos amUl.rxNext = 0 := by
  rw [pos_eq hb hb, Nat.add_sub_cancel_left, Nat.mod_self]

theorem pos_inj (hb : amUl.rxNext < snLen.modulus) {x y : ℕ} (hx : x < snLen.modulus)
    (hy : y < snLen.modulus) (h : amUl.pos x = amUl.pos y) : x = y := by
  rw [pos_eq hb hx, pos_eq hb hy] at h
  rcases snLen.winSz_cases with ⟨-, h2⟩ | ⟨-, h2⟩ <;> simp only [h2] at hb hx hy h <;> omega

theorem next_lt (snLen : SnLen) (x : ℕ) : (x &&& snLen.snModMask) < snLen.modulus := by
  rw [SnLen.and_mask]
  exact Nat.mod_lt _ snLen.modulus_pos

/-- The next SN, unless it is `rxNext`. -/
theorem pos_next (hb : amUl.rxNext < snLen.modulus) {x : ℕ} (hx : x < snLen.modulus)
    (h : amUl.pos x + 1 < snLen.modulus) :
    amUl.pos ((x + 1) &&& snLen.snModMask) = amUl.pos x + 1 := by
  rw [pos_eq hb hx] at h
  rw [pos_eq hb (next_lt snLen _), pos_eq hb hx, SnLen.and_mask]
  rcases snLen.winSz_cases with ⟨-, h2⟩ | ⟨-, h2⟩ <;> simp only [h2] at hb hx h ⊢ <;> omega

/-- The upper edge of the window is a window ahead. -/
theorem pos_edge (hb : amUl.rxNext < snLen.modulus)
    (hv : amUl.vrMr = (amUl.rxNext + snLen.winSz) &&& snLen.snModMask) :
    amUl.pos amUl.vrMr = snLen.winSz := by
  rw [hv, pos_eq hb (next_lt snLen _), SnLen.and_mask]
  rcases snLen.winSz_cases with ⟨h1, h2⟩ | ⟨h1, h2⟩ <;> simp only [h1, h2] at hb ⊢ <;> omega

/-- The distances after `rxNext` has moved up to `first`. -/
theorem pos_move (hb : amUl.rxNext < snLen.modulus) (hb' : amUl'.rxNext < snLen.modulus) {x : ℕ}
    (hx : x < snLen.modulus) : amUl'.pos x =
      if amUl.pos amUl'.rxNext ≤ amUl.pos x then amUl.pos x - amUl.pos amUl'.rxNext
      else amUl.pos x + snLen.modulus - amUl.pos amUl'.rxNext := by
  rw [pos_eq hb' hx, pos_eq hb hx, pos_eq hb hb']
  rcases snLen.winSz_cases with ⟨-, h2⟩ | ⟨-, h2⟩ <;> simp only [h2] at hb hb' hx ⊢ <;>
    split_ifs <;> omega

/-! ## The first SN that is not fully received -/

/-- The first SN from `sn` on that is not `rcvd`. -/
structure FirstFrom (amUl : AmUl snLen α) (rcvd : ℕ → Prop) (sn first : ℕ) : Prop where
  lt : first < snLen.modulus
  le : amUl.pos sn ≤ amUl.pos first
  missing : ¬ rcvd first
  received : ∀ x < snLen.modulus, amUl.pos sn ≤ amUl.pos x → amUl.pos x < amUl.pos first → rcvd x

variable {rcvd : ℕ → Prop} {sn first : ℕ}

theorem exists_firstFrom {y : ℕ} (hy : y < snLen.modulus) (hle : amUl.pos sn ≤ amUl.pos y)
    (hmiss : ¬ rcvd y) : ∃ first, amUl.FirstFrom rcvd sn first := by
  have hex : ∃ k, amUl.pos sn ≤ k ∧ ∃ x < snLen.modulus, amUl.pos x = k ∧ ¬ rcvd x :=
    ⟨_, hle, y, hy, rfl, hmiss⟩
  classical
  obtain ⟨hk, x, hx, hval, hm⟩ := Nat.find_spec hex
  refine ⟨x, hx, by omega, hm, fun x' hx' h1 h2 => ?_⟩
  rw [hval] at h2
  have hmin := Nat.find_min hex h2
  rw [not_and] at hmin
  by_contra hne
  exact hmin h1 ⟨x', hx', rfl, hne⟩

theorem FirstFrom.pos_le (h : amUl.FirstFrom rcvd sn first) {y : ℕ} (hy : y < snLen.modulus)
    (hle : amUl.pos sn ≤ amUl.pos y) (hmiss : ¬ rcvd y) : amUl.pos first ≤ amUl.pos y := by
  by_contra hlt
  exact hmiss (h.received y hy hle (by omega))

theorem FirstFrom.unique (hb : amUl.rxNext < snLen.modulus) (h : amUl.FirstFrom rcvd sn first)
    {first' : ℕ} (h' : amUl.FirstFrom rcvd sn first') : first' = first :=
  pos_inj hb h'.lt h.lt
    (Nat.le_antisymm (h'.pos_le h.lt h.le h.missing) (h.pos_le h'.lt h'.le h'.missing))

theorem firstFrom_self (hsn : sn < snLen.modulus) (hmiss : ¬ rcvd sn) :
    amUl.FirstFrom rcvd sn sn :=
  ⟨hsn, Nat.le_refl _, hmiss, fun _ _ h1 h2 => absurd h1 (by omega)⟩

theorem FirstFrom.eq_of_missing (hb : amUl.rxNext < snLen.modulus)
    (h : amUl.FirstFrom rcvd sn first) (hsn : sn < snLen.modulus) (hmiss : ¬ rcvd sn) :
    first = sn := (firstFrom_self hsn hmiss).unique hb h

/-- An SN that is received is passed. -/
theorem FirstFrom.next (hb : amUl.rxNext < snLen.modulus) (hsn : sn < snLen.modulus)
    (h : amUl.FirstFrom rcvd sn first) (hr : rcvd sn) :
    amUl.pos ((sn + 1) &&& snLen.snModMask) = amUl.pos sn + 1 ∧
      amUl.FirstFrom rcvd ((sn + 1) &&& snLen.snModMask) first := by
  have hlt : amUl.pos sn < amUl.pos first := by
    refine Nat.lt_of_le_of_ne h.le fun he => h.missing ?_
    rwa [← pos_inj hb hsn h.lt he]
  have hf := amUl.pos_lt first
  have hnext := pos_next hb hsn (by omega)
  exact ⟨hnext, h.lt, by omega, h.missing, fun x hx h1 h2 => h.received x hx (by omega) h2⟩

/-! ## The loops -/

/-- Fully received, as the entity has it. -/
abbrev Rcvd (amUl : AmUl snLen α) (sn : ℕ) : Prop := amUl.allRcvd sn = true

theorem updRxHighestStatus_eq (hb : amUl.rxNext < snLen.modulus) (n : ℕ) {sn : ℕ}
    (hsn : sn < snLen.modulus) (h : amUl.FirstFrom amUl.Rcvd sn first)
    (hn : amUl.pos first < amUl.pos sn + n) :
    amUl.updRxHighestStatus n sn (amUl.recBufLst sn) =
      ({ amUl with rxHighestStatus := first }, amUl.recBufLst first) := by
  induction n generalizing sn with
  | zero =>
      have := h.le
      omega
  | succ n ih =>
      rw [updRxHighestStatus]
      by_cases hr : amUl.Rcvd sn
      · obtain ⟨hnext, hf⟩ := h.next hb hsn hr
        rw [if_neg (by simpa [Rcvd, allRcvd] using hr)]
        exact ih (next_lt snLen _) hf (by omega)
      · rw [h.eq_of_missing hb hsn hr, if_pos (by simpa [Rcvd, allRcvd] using hr)]

/-- The SN is passed when `rxNext` moves from `sn` to `first`. -/
def Between (amUl : AmUl snLen α) (sn first x : ℕ) : Prop :=
  x < snLen.modulus ∧ amUl.pos sn ≤ amUl.pos x ∧ amUl.pos x < amUl.pos first

instance (amUl : AmUl snLen α) (sn first x : ℕ) : Decidable (amUl.Between sn first x) :=
  inferInstanceAs (Decidable (_ ∧ _ ∧ _))

/-- The entity when `rxNext` has moved from `sn` to `first`. -/
def moved (amUl : AmUl snLen α) (sn first : ℕ) : AmUl snLen α :=
  { amUl with
    recBufLst := fun x => if amUl.Between sn first x then none else amUl.recBufLst x
    rxNext := first
    vrMr := (first + snLen.winSz) &&& snLen.snModMask }

/-- A complete record has passed its SDU up. -/
def Delivered (amUl : AmUl snLen α) : Prop :=
  ∀ sn recBuf, amUl.recBufLst sn = some recBuf → recBuf.allRcvd = true →
    recBuf.isDelvUpperLayer = true

theorem Delivered.any_iff (h : amUl.Delivered) (sn : ℕ) :
    ((amUl.recBufLst sn).any fun recBuf => recBuf.allRcvd && recBuf.isDelvUpperLayer) = true ↔
      amUl.Rcvd sn := by
  rw [Rcvd, allRcvd]
  cases hr : amUl.recBufLst sn with
  | none => rfl
  | some recBuf =>
      simp only [Option.any_some, Bool.and_eq_true]
      exact and_iff_left_of_imp (h sn recBuf hr)

theorem Delivered.moved (h : amUl.Delivered) (sn first : ℕ) : (amUl.moved sn first).Delivered := by
  intro x recBuf hx
  rw [AmUl.moved] at hx
  simp only at hx
  split at hx
  · cases hx
  · exact h x recBuf hx

theorem moved_rcvd_iff {x : ℕ} (h : amUl.pos first ≤ amUl.pos x) :
    (amUl.moved sn first).Rcvd x ↔ amUl.Rcvd x := by
  rw [Rcvd, Rcvd, allRcvd, allRcvd, moved]
  simp only
  rw [if_neg fun hb => absurd h (Nat.not_le.2 hb.2.2)]

/-! A record that `rxNext` passes goes, which nothing behind it looks at. -/

theorem rlcUtlDelRecBuf_of_ne {x : ℕ} (h : x ≠ sn) :
    (amUl.rlcUtlDelRecBuf sn).recBufLst x = amUl.recBufLst x := Function.update_of_ne h _ _

theorem rlcUtlDelRecBuf_self : (amUl.rlcUtlDelRecBuf sn).recBufLst sn = none :=
  Function.update_self ..

@[simp] theorem pos_rlcUtlDelRecBuf (x : ℕ) : (amUl.rlcUtlDelRecBuf sn).pos x = amUl.pos x := rfl

theorem Delivered.rlcUtlDelRecBuf (h : amUl.Delivered) (sn : ℕ) :
    (amUl.rlcUtlDelRecBuf sn).Delivered := by
  intro x recBuf hx
  by_cases hxs : x = sn
  · rw [hxs, rlcUtlDelRecBuf_self] at hx
    cases hx
  · rw [rlcUtlDelRecBuf_of_ne hxs] at hx
    exact h x recBuf hx

theorem FirstFrom.rlcUtlDelRecBuf {sn' : ℕ} (h : amUl.FirstFrom amUl.Rcvd sn' first)
    (hlt : amUl.pos sn < amUl.pos sn') :
    (amUl.rlcUtlDelRecBuf sn).FirstFrom (amUl.rlcUtlDelRecBuf sn).Rcvd sn' first := by
  have hle := h.le
  have hother : ∀ x, amUl.pos sn < amUl.pos x →
      ((amUl.rlcUtlDelRecBuf sn).Rcvd x ↔ amUl.Rcvd x) := fun x hx => by
    rw [Rcvd, Rcvd, allRcvd, allRcvd, rlcUtlDelRecBuf_of_ne (by rintro rfl; omega)]
  refine ⟨h.lt, hle, ?_, fun x hx h1 h2 => ?_⟩
  · rw [hother first (by omega)]
    exact h.missing
  · simp only [pos_rlcUtlDelRecBuf] at h1 h2
    rw [hother x (by omega)]
    exact h.received x hx h1 h2

/-- One record more goes. -/
theorem moved_rlcUtlDelRecBuf (hb : amUl.rxNext < snLen.modulus) (hsn : sn < snLen.modulus)
    (hnext : amUl.pos ((sn + 1) &&& snLen.snModMask) = amUl.pos sn + 1)
    (hlt : amUl.pos sn < amUl.pos first) :
    (amUl.rlcUtlDelRecBuf sn).moved ((sn + 1) &&& snLen.snModMask) first =
      amUl.moved sn first := by
  have hrec : (fun x => if (amUl.rlcUtlDelRecBuf sn).Between ((sn + 1) &&& snLen.snModMask) first x
      then none else (amUl.rlcUtlDelRecBuf sn).recBufLst x) =
      fun x => if amUl.Between sn first x then none else amUl.recBufLst x := by
    funext x
    by_cases hxs : x = sn
    · have h1 : amUl.Between sn first x := by
        subst hxs
        exact ⟨hsn, Nat.le_refl _, hlt⟩
      rw [if_pos h1, hxs, rlcUtlDelRecBuf_self, ite_self]
    · rw [rlcUtlDelRecBuf_of_ne hxs]
      refine if_congr ⟨fun ⟨h1, h2, h3⟩ => ?_, fun ⟨h1, h2, h3⟩ => ?_⟩ rfl rfl
      · simp only [pos_rlcUtlDelRecBuf] at h2 h3
        exact ⟨h1, by omega, h3⟩
      · have hne : amUl.pos sn ≠ amUl.pos x := fun he => hxs (pos_inj hb h1 hsn he.symm)
        simp only [Between, pos_rlcUtlDelRecBuf]
        exact ⟨h1, by omega, h3⟩
  rw [moved, moved, hrec]
  rfl

theorem moved_self (sn : ℕ) : amUl.moved sn sn = { amUl with
    rxNext := sn
    vrMr := (sn + snLen.winSz) &&& snLen.snModMask } := by
  have hnone : ∀ x, ¬ amUl.Between sn sn x := fun x ⟨_, h2, h3⟩ => by omega
  simp only [moved, hnone, if_false]

theorem updRxNext_eq (hb : amUl.rxNext < snLen.modulus) (n : ℕ) {sn : ℕ}
    (hsn : sn < snLen.modulus) (hd : amUl.Delivered) (h : amUl.FirstFrom amUl.Rcvd sn first)
    (hn : amUl.pos first < amUl.pos sn + n) :
    amUl.updRxNext n sn (amUl.recBufLst sn) = (amUl.moved sn first, amUl.recBufLst first) := by
  induction n generalizing amUl sn with
  | zero =>
      have := h.le
      omega
  | succ n ih =>
      rw [updRxNext]
      by_cases hr : amUl.Rcvd sn
      · obtain ⟨hnext, hf⟩ := h.next hb hsn hr
        have hle := hf.le
        rw [if_pos ((hd.any_iff sn).2 hr)]
        have hrec := @ih (amUl.rlcUtlDelRecBuf sn) hb ((sn + 1) &&& snLen.snModMask)
          (next_lt snLen _) (hd.rlcUtlDelRecBuf sn) (hf.rlcUtlDelRecBuf (by omega)) (by
            simp only [pos_rlcUtlDelRecBuf]
            omega)
        rw [moved_rlcUtlDelRecBuf hb hsn hnext (by omega),
          rlcUtlDelRecBuf_of_ne (x := first) (by rintro rfl; omega)] at hrec
        exact hrec
      · rw [if_neg fun hc => hr ((hd.any_iff sn).1 hc), h.eq_of_missing hb hsn hr, moved_self]

end AmUl

end OaiCu.OduRlc
