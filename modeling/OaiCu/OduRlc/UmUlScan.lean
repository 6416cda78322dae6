import OaiCu.OduRlc.UmUl
import Mathlib.Data.Nat.Find

/-!
# The scan of the UM uplink for the next SN to reassemble

`rlcUmmFindRxNextReassembly` first moves `vrUr` up to the SN it is given, one SN at a time, and
then on over the SNs that were fully received. It drops the records it passes. In the first part
`vrUr` is incremented without the mask, and the records from SN 0 on are not found any more.
-/

namespace OaiCu.OduRlc

namespace UmSnLen

/-- The number of SNs. -/
def modulus (snLen : UmSnLen) : ℕ := 2 * snLen.umWinSz

theorem modBitMask_succ (snLen : UmSnLen) : snLen.modBitMask + 1 = snLen.modulus := by
  cases snLen <;> rfl

theorem and_modBitMask (snLen : UmSnLen) (x : ℕ) :
    x &&& snLen.modBitMask = x % snLen.modulus := by
  cases snLen
  · exact Nat.and_two_pow_sub_one_eq_mod x 6
  · exact Nat.and_two_pow_sub_one_eq_mod x 12

theorem umWinSz_cases (snLen : UmSnLen) :
    snLen.umWinSz = 32 ∧ snLen.modulus = 64 ∨ snLen.umWinSz = 2048 ∧ snLen.modulus = 4096 := by
  cases snLen
  · exact .inl ⟨rfl, rfl⟩
  · exact .inr ⟨rfl, rfl⟩

theorem modulus_pos (snLen : UmSnLen) : 0 < snLen.modulus := by
  have := snLen.umWinSz_cases
  omega

end UmSnLen

namespace RlcUmUl

variable {snLen : UmSnLen} {α : Type*} {umUl : RlcUmUl snLen α}

/-! ## The distance from the lower edge of the window -/

theorem getValue_eq (hUh : umUl.vrUh < snLen.modulus) {x : ℕ} (hx : x < 2 ^ 31) :
    umUl.getValue x = (x + 3 * snLen.umWinSz - umUl.vrUh) % snLen.modulus := by
  rw [getValue, UmSnLen.and_modBitMask, sub32, sub32]
  rcases snLen.umWinSz_cases with ⟨h1, h2⟩ | ⟨h1, h2⟩ <;> simp only [h1, h2] at hUh ⊢ <;> omega

theorem getValue_lt (umUl : RlcUmUl snLen α) (x : ℕ) : umUl.getValue x < snLen.modulus := by
  rw [getValue, UmSnLen.and_modBitMask]
  exact Nat.mod_lt _ snLen.modulus_pos

theorem getValue_vrUh (hUh : umUl.vrUh < snLen.modulus) :
    umUl.getValue umUl.vrUh = snLen.umWinSz := by
  have hw := snLen.umWinSz_cases
  rw [getValue_eq hUh (by omega)]
  rcases hw with ⟨h1, h2⟩ | ⟨h1, h2⟩ <;> simp only [h1, h2] at hUh ⊢ <;> omega

theorem getValue_inj (hUh : umUl.vrUh < snLen.modulus) {x y : ℕ} (hx : x < snLen.modulus)
    (hy : y < snLen.modulus) (h : umUl.getValue x = umUl.getValue y) : x = y := by
  have hw := snLen.umWinSz_cases
  rw [getValue_eq hUh (by omega), getValue_eq hUh (by omega)] at h
  rcases hw with ⟨h1, h2⟩ | ⟨h1, h2⟩ <;> simp only [h1, h2] at hUh hx hy h <;> omega

theorem getValue_add (hUh : umUl.vrUh < snLen.modulus) {x d : ℕ} (hx : x + d < 2 ^ 31)
    (h : umUl.getValue x + d < snLen.modulus) : umUl.getValue (x + d) = umUl.getValue x + d := by
  have hw := snLen.umWinSz_cases
  rw [getValue_eq hUh (by omega)] at h
  rw [getValue_eq hUh hx, getValue_eq hUh (by omega)]
  rcases hw with ⟨h1, h2⟩ | ⟨h1, h2⟩ <;> simp only [h1, h2] at hUh h ⊢ <;> omega

theorem getValue_mod (hUh : umUl.vrUh < snLen.modulus) {x : ℕ} (hx : x < 2 ^ 31) :
    umUl.getValue (x &&& snLen.modBitMask) = umUl.getValue x := by
  have hw := snLen.umWinSz_cases
  have hle := Nat.mod_le x snLen.modulus
  rw [UmSnLen.and_modBitMask, getValue_eq hUh (by omega), getValue_eq hUh hx]
  rcases hw with ⟨h1, h2⟩ | ⟨h1, h2⟩ <;> simp only [h1, h2] at hUh ⊢ <;> omega

/-- The next SN, unless it is the one at the lower edge. -/
theorem getValue_next (hUh : umUl.vrUh < snLen.modulus) {x : ℕ} (hx : x < snLen.modulus)
    (h : umUl.getValue x + 1 < snLen.modulus) :
    umUl.getValue ((x + 1) &&& snLen.modBitMask) = umUl.getValue x + 1 := by
  have hw := snLen.umWinSz_cases
  rw [getValue_mod hUh (by omega), getValue_add hUh (by omega) h]

theorem next_lt (snLen : UmSnLen) (x : ℕ) : (x &&& snLen.modBitMask) < snLen.modulus := by
  rw [UmSnLen.and_modBitMask]
  exact Nat.mod_lt _ snLen.modulus_pos

/-! ## The records -/

theorem delRecBuf_eq (umUl : RlcUmUl snLen α) (recBuf : Option ℕ) :
    umUl.delRecBuf recBuf = { umUl with
      recBufLst := fun x => if recBuf = some x then none else umUl.recBufLst x } := by
  cases recBuf with
  | none => rfl
  | some sn =>
      rw [delRecBuf]
      congr 1
      funext x
      rw [Function.update_apply]
      simp only [Option.some.injEq, eq_comm]

theorem findRecBuf_eq_some {sn x : ℕ} :
    umUl.findRecBuf sn = some x ↔ x = sn ∧ (umUl.recBufLst sn).isSome = true := by
  rw [findRecBuf]
  cases umUl.recBufLst sn <;> simp [eq_comm]

theorem findRecBuf_eq_some_iff {sn x : ℕ} (hx : umUl.recBufLst x ≠ none) :
    umUl.findRecBuf sn = some x ↔ x = sn := by
  rw [findRecBuf_eq_some]
  refine and_iff_left_of_imp fun h => ?_
  rw [← h]
  exact Option.isSome_iff_ne_none.2 hx

/-- The first SN, from `nextSn` on and up to the lower edge of the window again, that is not
fully received. -/
structure FirstFrom (umUl : RlcUmUl snLen α) (nextSn first : ℕ) : Prop where
  lt : first < snLen.modulus
  le : umUl.getValue nextSn ≤ umUl.getValue first
  missing : umUl.allSegRcvd first = false
  received : ∀ x < snLen.modulus, umUl.getValue nextSn ≤ umUl.getValue x →
    umUl.getValue x < umUl.getValue first → umUl.allSegRcvd x = true

/-- There is one if there is any SN that is not fully received. -/
theorem exists_firstFrom {nextSn y : ℕ}
    (hy : y < snLen.modulus) (hle : umUl.getValue nextSn ≤ umUl.getValue y)
    (hmiss : umUl.allSegRcvd y = false) : ∃ first, umUl.FirstFrom nextSn first := by
  have hex : ∃ k, umUl.getValue nextSn ≤ k ∧ ∃ x < snLen.modulus,
      umUl.getValue x = k ∧ umUl.allSegRcvd x = false := ⟨_, hle, y, hy, rfl, hmiss⟩
  classical
  obtain ⟨hk, x, hx, hval, hm⟩ := Nat.find_spec hex
  refine ⟨x, hx, by omega, hm, fun x' hx' h1 h2 => ?_⟩
  rw [hval] at h2
  have hmin := Nat.find_min hex h2
  rw [not_and] at hmin
  by_contra hne
  exact hmin h1 ⟨x', hx', rfl, by simpa using hne⟩

/-- The records that the scan drops: the one it holds, those that `vrUr` comes to without the
mask, and those from `nextSn` on. -/
def Passed (umUl : RlcUmUl snLen α) (nextSn first : ℕ) (prevRecBuf : Option ℕ) (x : ℕ) : Prop :=
  prevRecBuf = some x ∨
    (umUl.vrUr < x ∧ x + umUl.getValue umUl.vrUr < umUl.vrUr + umUl.getValue nextSn) ∨
    (x < snLen.modulus ∧ umUl.getValue nextSn ≤ umUl.getValue x ∧
      umUl.getValue x < umUl.getValue first)

open Classical in
/-- The entity when the scan has come to `first`. -/
noncomputable def scanned (umUl : RlcUmUl snLen α) (nextSn first : ℕ)
    (prevRecBuf : Option ℕ) : RlcUmUl snLen α :=
  { umUl with
    vrUr := first
    recBufLst := fun x =>
      if umUl.Passed nextSn first prevRecBuf x then none else umUl.recBufLst x }

/-- `umUl'` is the entity without `prevRecBuf` and with another `vrUr`. -/
def Drops (umUl : RlcUmUl snLen α) (prevRecBuf : Option ℕ) (v : ℕ)
    (umUl' : RlcUmUl snLen α) : Prop :=
  umUl' = { umUl with
    vrUr := v
    recBufLst := fun x => if prevRecBuf = some x then none else umUl.recBufLst x }

theorem drops_delRecBuf (umUl : RlcUmUl snLen α) (prevRecBuf : Option ℕ) (v : ℕ) :
    umUl.Drops prevRecBuf v ({ umUl with vrUr := v }.delRecBuf prevRecBuf) := delRecBuf_eq _ _

section

variable {umUl' : RlcUmUl snLen α} {prevRecBuf : Option ℕ} {v : ℕ}

theorem Drops.getValue (h : umUl.Drops prevRecBuf v umUl') (x : ℕ) :
    umUl'.getValue x = umUl.getValue x := by
  rw [h]
  rfl

theorem Drops.recBufLst (h : umUl.Drops prevRecBuf v umUl') (x : ℕ) :
    umUl'.recBufLst x = if prevRecBuf = some x then none else umUl.recBufLst x := by rw [h]

theorem Drops.recBufLst_of_ne (h : umUl.Drops prevRecBuf v umUl') {x : ℕ}
    (hx : prevRecBuf ≠ some x) : umUl'.recBufLst x = umUl.recBufLst x := by
  rw [h.recBufLst, if_neg hx]

theorem Drops.recBufLst_ne_none (h : umUl.Drops prevRecBuf v umUl') {x : ℕ}
    (hx : umUl'.recBufLst x ≠ none) : umUl.recBufLst x ≠ none := by
  rw [h.recBufLst] at hx
  split_ifs at hx
  · exact absurd rfl hx
  · exact hx

/-- The SNs from `nextSn` on are as before. -/
theorem Drops.firstFrom (h : umUl.Drops prevRecBuf v umUl') {nextSn nextSn' first : ℕ}
    (hprev : ∀ p, prevRecBuf = some p → umUl.getValue p < umUl.getValue nextSn)
    (hle : umUl.getValue nextSn ≤ umUl.getValue nextSn')
    (hle' : umUl.getValue nextSn' ≤ umUl.getValue first) (hfirst : umUl.FirstFrom nextSn first) :
    umUl'.FirstFrom nextSn' first := by
  have hsame : ∀ x, umUl.getValue nextSn ≤ umUl.getValue x →
      umUl'.allSegRcvd x = umUl.allSegRcvd x := fun x hx => by
    rw [allSegRcvd, allSegRcvd, h.recBufLst_of_ne fun hp => (hprev x hp).not_ge hx]
  refine ⟨hfirst.lt, by rwa [h.getValue, h.getValue], ?_, fun x hx h1 h2 => ?_⟩
  · rw [hsame first hfirst.le]
    exact hfirst.missing
  · rw [h.getValue, h.getValue] at h1 h2
    rw [hsame x (hle.trans h1)]
    exact hfirst.received x hx (hle.trans h1) h2

/-- One round of the loop: `prevRecBuf` is dropped, and the rest is passed later. -/
theorem Drops.scanned_eq (hd : umUl.Drops prevRecBuf v umUl') {nextSn nextSn' first : ℕ}
    {prevRecBuf' : Option ℕ}
    (h : ∀ x, umUl.recBufLst x ≠ none → (umUl.Passed nextSn first prevRecBuf x ↔
      prevRecBuf = some x ∨ umUl'.Passed nextSn' first prevRecBuf' x)) :
    umUl'.scanned nextSn' first prevRecBuf' = umUl.scanned nextSn first prevRecBuf := by
  classical
  subst hd
  simp only [scanned]
  congr 1
  funext x
  by_cases hnone : umUl.recBufLst x = none
  · simp only [hnone, ite_self]
  · by_cases hprev : prevRecBuf = some x
    · rw [if_pos ((h x hnone).2 (.inl hprev)), if_pos hprev, ite_self]
    · rw [if_neg hprev]
      exact if_congr ((h x hnone).trans (or_iff_right hprev)).symm rfl rfl

end

/-- **The loop ends at the first SN that is not fully received.** -/
theorem findLoop_eq_scanned {first : ℕ} : ∀ (fuel : ℕ) {umUl : RlcUmUl snLen α} {nextSn : ℕ}
    {prevRecBuf : Option ℕ}, umUl.vrUh < snLen.modulus → nextSn < snLen.modulus →
    umUl.getValue umUl.vrUr < umUl.getValue nextSn →
    umUl.vrUr ≤ snLen.modulus + umUl.getValue umUl.vrUr →
    2 * (snLen.modulus - umUl.getValue nextSn) +
      (umUl.getValue nextSn - umUl.getValue umUl.vrUr) < fuel →
    (∀ p, prevRecBuf = some p → umUl.getValue p < umUl.getValue nextSn) →
    (∀ x, umUl.recBufLst x ≠ none → x < snLen.modulus) → umUl.FirstFrom nextSn first →
    findLoop fuel umUl (umUl.getValue umUl.vrUr) nextSn (umUl.getValue nextSn) prevRecBuf =
      some (umUl.scanned nextSn first prevRecBuf)
  | 0, _, _, _, _, _, _, _, hfuel, _, _, _ => absurd hfuel (Nat.not_lt_zero _)
  | fuel + 1, umUl, nextSn, prevRecBuf, hUh, hnext, hlt, hraw, hfuel, hprev, hrec, hfirst => by
    have hw := snLen.umWinSz_cases
    have hval := umUl.getValue_lt nextSn
    have hvr : umUl.getValue (umUl.vrUr + 1) = umUl.getValue umUl.vrUr + 1 :=
      getValue_add hUh (by omega) (by omega)
    rw [findLoop, if_pos hlt]
    by_cases hadj : umUl.getValue umUl.vrUr + 1 = umUl.getValue nextSn
    case neg =>
      -- `vrUr` moves on
      rw [if_neg hadj]
      have hd := umUl.drops_delRecBuf prevRecBuf (umUl.vrUr + 1)
      generalize { umUl with vrUr := umUl.vrUr + 1 }.delRecBuf prevRecBuf = umUl' at hd ⊢
      have hvr' : umUl'.vrUr = umUl.vrUr + 1 := by rw [hd]
      have hih := @findLoop_eq_scanned first fuel umUl' nextSn (umUl'.findRecBuf umUl'.vrUr)
        (by rw [hd]; exact hUh) hnext
      simp only [hd.getValue, hvr', hvr] at hih ⊢
      rw [hih (by omega) (by omega) (by omega) ?_ (fun x hx => hrec x (hd.recBufLst_ne_none hx))
        (hd.firstFrom hprev le_rfl hfirst.le hfirst)]
      · rw [hd.scanned_eq]
        intro x hx
        by_cases hp : prevRecBuf = some x
        · exact iff_of_true (.inl hp) (.inl hp)
        · have hx' : umUl'.recBufLst x ≠ none := by rwa [hd.recBufLst_of_ne hp]
          simp only [Passed, hp, false_or, findRecBuf_eq_some_iff hx', hd.getValue, hvr', hvr]
          omega
      · intro p hp
        rw [(findRecBuf_eq_some.1 hp).1, hvr]
        omega
    case pos =>
      rw [if_pos hadj]
      by_cases hall : umUl.allSegRcvd nextSn = true
      case neg =>
        -- the scan has come to the end
        have hend : first = nextSn := by
          refine getValue_inj hUh hfirst.lt hnext (le_antisymm ?_ hfirst.le)
          exact not_lt.1 fun hgt => hall (hfirst.received nextSn hnext le_rfl hgt)
        classical
        rw [if_neg hall, delRecBuf_eq, scanned, hend]
        congr 2
        funext x
        refine if_congr (Iff.symm ?_) rfl rfl
        rw [Passed]
        exact ⟨fun h => h.resolve_right (by omega), .inl⟩
      case pos =>
        -- `nextSn` moves on
        have hgt : umUl.getValue nextSn < umUl.getValue first := by
          refine lt_of_le_of_ne hfirst.le fun heq => ?_
          rw [getValue_inj hUh hnext hfirst.lt heq, hfirst.missing] at hall
          exact Bool.false_ne_true hall
        have hlt' := umUl.getValue_lt first
        have hnext' := getValue_next hUh hnext (by omega)
        rw [if_pos hall]
        have hd : umUl.Drops prevRecBuf umUl.vrUr (umUl.delRecBuf prevRecBuf) :=
          umUl.drops_delRecBuf prevRecBuf umUl.vrUr
        simp only
        generalize umUl.delRecBuf prevRecBuf = umUl' at hd ⊢
        have hvr' : umUl'.vrUr = umUl.vrUr := by rw [hd]
        have hih := @findLoop_eq_scanned first fuel umUl' ((nextSn + 1) &&& snLen.modBitMask)
          (umUl'.findRecBuf nextSn) (by rw [hd]; exact hUh) (next_lt snLen _)
        simp only [hd.getValue, hvr', hnext'] at hih ⊢
        rw [hih (by omega) (by omega) (by omega) ?_
          (fun x hx => hrec x (hd.recBufLst_ne_none hx))
          (hd.firstFrom hprev (by omega) (by omega) hfirst)]
        · rw [hd.scanned_eq]
          intro x hx
          by_cases hp : prevRecBuf = some x
          · exact iff_of_true (.inl hp) (.inl hp)
          · have hx' : umUl'.recBufLst x ≠ none := by rwa [hd.recBufLst_of_ne hp]
            have hsame : umUl.getValue x = umUl.getValue nextSn ↔ x = nextSn :=
              ⟨getValue_inj hUh (hrec x hx) hnext, fun h => by rw [h]⟩
            have hvx : x = umUl.vrUr + 1 → umUl.getValue x = umUl.getValue nextSn := fun h => by
              rw [h, hvr, hadj]
            have hxlt := hrec x hx
            simp only [Passed, hp, false_or, findRecBuf_eq_some_iff hx', hd.getValue, hvr', hnext']
            omega
        · intro p hp
          rw [(findRecBuf_eq_some.1 hp).1]
          omega

theorem rlcUmmFindRxNextReassembly_of_le {nextSn : ℕ}
    (h : umUl.getValue nextSn ≤ umUl.getValue umUl.vrUr) :
    umUl.rlcUmmFindRxNextReassembly nextSn = some umUl := by
  rw [rlcUmmFindRxNextReassembly, findLoop, if_neg (by omega)]

theorem rlcUmmFindRxNextReassembly_eq {nextSn first : ℕ} (hUh : umUl.vrUh < snLen.modulus)
    (hUr : umUl.vrUr < snLen.modulus) (hnext : nextSn < snLen.modulus)
    (hlt : umUl.getValue umUl.vrUr < umUl.getValue nextSn)
    (hrec : ∀ x, umUl.recBufLst x ≠ none → x < snLen.modulus)
    (hfirst : umUl.FirstFrom nextSn first) :
    umUl.rlcUmmFindRxNextReassembly nextSn =
      some (umUl.scanned nextSn first (umUl.findRecBuf umUl.vrUr)) := by
  have hw := snLen.umWinSz_cases
  have hval := umUl.getValue_lt nextSn
  refine findLoop_eq_scanned _ hUh hnext hlt (by omega) (by omega) (fun p hp => ?_) hrec hfirst
  rw [(findRecBuf_eq_some.1 hp).1]
  exact hlt

/-! ## What the scan leaves behind -/

/-- A record of an SN from 0 on that the scan comes to by incrementing `vrUr`, which has passed
the highest SN. -/
def LeavesBehind (umUl : RlcUmUl snLen α) (nextSn : ℕ) : Prop :=
  ∃ sn < umUl.vrUr, umUl.recBufLst sn ≠ none ∧ umUl.getValue umUl.vrUr < umUl.getValue sn ∧
    umUl.getValue sn < umUl.getValue nextSn

theorem getValue_of_lt (hUh : umUl.vrUh < snLen.modulus) {x y : ℕ} (hy : y < snLen.modulus)
    (hlt : x < y) (h : umUl.getValue x < umUl.getValue y) :
    umUl.getValue y + x = umUl.getValue x + y := by
  have hw := snLen.umWinSz_cases
  rw [getValue_eq hUh (by omega), getValue_eq hUh (by omega)] at h ⊢
  rcases hw with ⟨h1, h2⟩ | ⟨h1, h2⟩ <;> simp only [h1, h2] at hUh hy h ⊢ <;> omega

/-- **Else the scan drops exactly the records below the SN it comes to.** -/
theorem passed_iff {nextSn first x : ℕ} (hUh : umUl.vrUh < snLen.modulus)
    (hUr : umUl.vrUr < snLen.modulus) (hlt : umUl.getValue umUl.vrUr < umUl.getValue nextSn)
    (hfirst : umUl.FirstFrom nextSn first) (hleave : ¬ umUl.LeavesBehind nextSn)
    (hx : x < snLen.modulus) (hrec : umUl.recBufLst x ≠ none)
    (hge : umUl.getValue umUl.vrUr ≤ umUl.getValue x) :
    umUl.Passed nextSn first (umUl.findRecBuf umUl.vrUr) x ↔
      umUl.getValue x < umUl.getValue first := by
  have hle := hfirst.le
  have heq : umUl.getValue x = umUl.getValue umUl.vrUr ↔ x = umUl.vrUr :=
    ⟨getValue_inj hUh hx hUr, fun h => by rw [h]⟩
  rw [Passed, findRecBuf_eq_some_iff hrec]
  rcases Nat.lt_trichotomy x umUl.vrUr with hx' | hx' | hx'
  · have hnot : ¬ umUl.getValue x < umUl.getValue nextSn := fun h =>
      hleave ⟨x, hx', hrec, by omega, h⟩
    omega
  · omega
  · have hdist := getValue_of_lt hUh hx hx' (by omega)
    omega

end RlcUmUl

end OaiCu.OduRlc
