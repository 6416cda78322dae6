import OaiCu.Lib.Bisect
import OaiCu.NrMac.TbsRight

/-!
# The number of resource blocks for some bytes

`nr_find_nb_rb` looks at the largest number of blocks, then at the smallest, and bisects in between.
-/

namespace OaiCu.NrMac

/-- The arguments of nr_find_nb_rb that do not change during the search. -/
structure FindParams where
  Qm : ℕ
  R : ℕ
  nrOfLayers : ℕ
  nbSymbSch : ℕ
  nbDmrsPrb : ℕ
  deriving DecidableEq, Repr

/-- What nr_find_nb_rb returns, and what it stores at its pointers. -/
structure FoundNbRb where
  ret : Bool
  tbs : ℕ
  nbRb : ℕ
  deriving DecidableEq, Repr

namespace FindParams

variable (x : FindParams)

/-- The arguments of nr_compute_tbs: no overhead, no scaling. -/
def tbsParams : TbsParams where
  Qm := x.Qm
  R := x.R
  nbSymbSch := x.nbSymbSch
  nbDmrsPrb := x.nbDmrsPrb
  nbRbOh := 0
  tbScaling := 0
  Nl := x.nrOfLayers

/-- nr_compute_tbs, in bytes. -/
def tbs (nbRb : ℕ) : ℕ := nrComputeTbs x.tbsParams nbRb >>> 3

/-- nr_find_nb_rb. -/
def nrFindNbRb (bytes nbRbMin nbRbMax : ℕ) : FoundNbRb :=
  if x.tbs nbRbMax < bytes then ⟨false, x.tbs nbRbMax, nbRbMax⟩
  else if bytes = x.tbs nbRbMax then ⟨true, x.tbs nbRbMax, nbRbMax⟩
  else if bytes ≤ x.tbs nbRbMin then ⟨true, x.tbs nbRbMin, nbRbMin⟩
  else
    let nbRb := Bisect.upper x.tbs bytes nbRbMin nbRbMax
    ⟨bytes ≤ x.tbs nbRb && nbRb ≤ nbRbMax, x.tbs nbRb, nbRb⟩

/-- The blocks found are of the interval and hold the bytes, no block is too many, and a size that
fits exactly is found. Without a number of blocks that is large enough the largest one is left. -/
structure Found (bytes nbRbMin nbRbMax : ℕ) (found : FoundNbRb) : Prop where
  ret_iff : found.ret = true ↔ bytes ≤ x.tbs nbRbMax
  tbs_eq : found.tbs = x.tbs found.nbRb
  nbRb_mem : found.ret = true → nbRbMin ≤ found.nbRb ∧ found.nbRb ≤ nbRbMax
  holds : found.ret = true → bytes ≤ found.tbs
  least : found.ret = true → found.nbRb = nbRbMin ∨ found.tbs = bytes ∨
    x.tbs (found.nbRb - 1) < bytes
  largest : found.ret = false → found.nbRb = nbRbMax ∧ found.tbs < bytes
  exact : (∃ n, nbRbMin ≤ n ∧ n ≤ nbRbMax ∧ x.tbs n = bytes) → found.tbs = bytes

variable {x} {bytes nbRbMin nbRbMax : ℕ}

/-- The search is right where the size does not fall with the number of blocks. -/
theorem nrFindNbRb_found (hle : nbRbMin ≤ nbRbMax)
    (hmono : ∀ a b, nbRbMin ≤ a → a ≤ b → b ≤ nbRbMax →
      nrComputeTbs x.tbsParams a ≤ nrComputeTbs x.tbsParams b) :
    x.Found bytes nbRbMin nbRbMax (x.nrFindNbRb bytes nbRbMin nbRbMax) := by
  have htbs : ∀ a b, nbRbMin ≤ a → a ≤ b → b ≤ nbRbMax → x.tbs a ≤ x.tbs b := by
    intro a b ha hab hb
    unfold tbs
    rw [Nat.shiftRight_eq_div_pow, Nat.shiftRight_eq_div_pow]
    exact Nat.div_le_div_right (hmono a b ha hab hb)
  unfold nrFindNbRb
  split_ifs with hmore hmax hmin
  · refine ⟨⟨nofun, fun h => absurd hmore (not_lt.mpr h)⟩, rfl, nofun, nofun, nofun,
      fun _ => ⟨rfl, hmore⟩, ?_⟩
    rintro ⟨n, hn, hn', rfl⟩
    exact absurd hmore (not_lt.mpr (htbs n nbRbMax hn hn' le_rfl))
  · exact ⟨iff_of_true rfl hmax.le, rfl, fun _ => ⟨hle, le_rfl⟩, fun _ => hmax.le,
      fun _ => .inr (.inl hmax.symm), nofun, fun _ => hmax.symm⟩
  · refine ⟨iff_of_true rfl (not_lt.mp hmore), rfl, fun _ => ⟨le_rfl, hle⟩, fun _ => hmin,
      fun _ => .inl rfl, nofun, ?_⟩
    rintro ⟨n, hn, hn', rfl⟩
    exact le_antisymm (htbs nbRbMin n le_rfl hn hn') hmin
  · have hbetween : Bisect.Between x.tbs bytes nbRbMin nbRbMax := by
      refine ⟨?_, not_le.mp hmin, lt_of_le_of_ne (not_lt.mp hmore) hmax⟩
      rcases Nat.eq_or_lt_of_le hle with rfl | hlt
      · exact absurd (not_lt.mp hmore) hmin
      · exact hlt
    obtain ⟨hlow, hhigh, hend⟩ := Bisect.upper_spec hbetween
    generalize Bisect.upper x.tbs bytes nbRbMin nbRbMax = nbRb at *
    have hholds : bytes ≤ x.tbs nbRb := by
      rcases hend with heq | hbefore
      · exact heq.ge
      · exact hbefore.high.le
    have hret : (decide (bytes ≤ x.tbs nbRb) && decide (nbRb ≤ nbRbMax)) = true := by
      rw [decide_eq_true hholds, decide_eq_true hhigh, Bool.and_self]
    refine ⟨iff_of_true hret (not_lt.mp hmore), rfl, fun _ => ⟨hlow.le, hhigh⟩, fun _ => hholds,
      fun _ => ?_, fun h => absurd (hret.symm.trans h) nofun, ?_⟩
    · rcases hend with heq | hbefore
      · exact .inr (.inl heq)
      · exact .inr (.inr hbefore.low)
    · rintro ⟨n, hn, hn', rfl⟩
      rcases hend with heq | hbefore
      · exact heq
      · -- the size is on neither side of the step that the search ended at
        rcases Nat.lt_or_ge n nbRb with hlt | hge
        · exact absurd (htbs n (nbRb - 1) hn (by omega) (by omega)) (not_le.mpr hbefore.low)
        · exact absurd (htbs nbRb n hlow.le hge hn') (not_le.mpr hbefore.high)

/-- Two layers of 16QAM. -/
def twoLayers : FindParams where
  Qm := 4
  R := 4340
  nrOfLayers := 2
  nbSymbSch := 12
  nbDmrsPrb := 12

/-- 400 bytes are between the sizes of 5 and of 9 blocks. The bisection finds 8 blocks for them. -/
theorem nrFindNbRb_twoLayers : twoLayers.nrFindNbRb 400 5 9 = ⟨true, 453, 8⟩ ∧
    twoLayers.Found 400 5 9 (twoLayers.nrFindNbRb 400 5 9) := by
  refine ⟨by decide +kernel, nrFindNbRb_found (by decide) fun a b ha hab hb => ?_⟩
  have hall : ∀ b ≤ 9, ∀ a ≤ b,
      nrComputeTbs twoLayers.tbsParams a ≤ nrComputeTbs twoLayers.tbsParams b := by decide +kernel
  exact hall b hb a hab

end FindParams

end OaiCu.NrMac
