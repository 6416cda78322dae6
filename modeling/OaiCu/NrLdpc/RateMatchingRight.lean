import Mathlib.Algebra.Order.BigOperators.Group.Finset
import OaiCu.NrLdpc.RateMatching

/-!
# Transmitter and receiver select the same bits

Both walk round the places of the circular buffer that hold no filler, from the place of the
redundancy version on.
-/

namespace OaiCu.NrLdpc

namespace RateMatching

/-- The places without filler. -/
def places (x : RateMatching) : List ℕ :=
  List.range x.Foffset ++ List.range' (x.Foffset + x.F) (x.Ncb - (x.Foffset + x.F))

/-- The number of places before the start. -/
def rank (x : RateMatching) : ℕ :=
  if x.k0 < x.Foffset then x.k0 else if x.k0 < x.F + x.Foffset then x.Foffset else x.k0 - x.F

/-- The place that bit `k` is taken from. -/
def select (x : RateMatching) (k : ℕ) : ℕ :=
  let j := (x.rank + k) % (x.Ncb - x.F)
  if j < x.Foffset then j else j + x.F

/-- What the callers guarantee: the filler is in the buffer, and `w` is null there and nowhere
else. -/
structure Valid (x : RateMatching) (w : ℕ → BitVec 8) : Prop where
  Z_pos : 0 < x.Z
  C_pos : 0 < x.C
  E_pos : 0 < x.E
  Foffset_le : x.Foffset ≤ x.E
  fits : x.Foffset + x.F ≤ x.Ncb
  null_iff : ∀ i < x.Ncb, w i = NR_NULL ↔ x.Foffset ≤ i ∧ i < x.Foffset + x.F

variable {x : RateMatching} {w : ℕ → BitVec 8}

theorem k0_lt (hZ : 0 < x.Z) (hNcb : 0 < x.Ncb) : x.k0 < x.Ncb := by
  have hlt : ∀ i j, indexK0 i j < if i = 0 then 66 else 50 := by decide
  have hk := hlt x.BG x.rvidx
  have hN : x.N = (if x.BG = 0 then 66 else 50) * x.Z := by
    unfold N
    split_ifs <;> rfl
  have hle : indexK0 x.BG x.rvidx * x.Ncb / x.N * x.Z * x.N ≤ indexK0 x.BG x.rvidx * x.Ncb * x.Z :=
    calc
      _ = indexK0 x.BG x.rvidx * x.Ncb / x.N * x.N * x.Z := Nat.mul_right_comm _ _ _
      _ ≤ _ := Nat.mul_le_mul_right _ (Nat.div_mul_le_self _ _)
  unfold k0
  generalize indexK0 x.BG x.rvidx = c at *
  generalize (if x.BG = 0 then 66 else 50) = b at *
  rw [hN] at hle ⊢
  generalize c * x.Ncb / (b * x.Z) * x.Z = k at *
  by_contra hge
  have h1 : x.Ncb * (b * x.Z) ≤ c * x.Ncb * x.Z :=
    (Nat.mul_le_mul_right _ (Nat.le_of_not_lt hge)).trans hle
  have h2 : c * x.Ncb * x.Z < x.Ncb * (b * x.Z) :=
    calc
      c * x.Ncb * x.Z < b * x.Ncb * x.Z :=
        Nat.mul_lt_mul_of_pos_right (Nat.mul_lt_mul_of_pos_right hk hNcb) hZ
      _ = x.Ncb * (b * x.Z) := by rw [Nat.mul_comm b, Nat.mul_assoc]
  exact Nat.lt_irrefl _ (Nat.lt_of_lt_of_le h2 h1)

theorem places_length (hfits : x.Foffset + x.F ≤ x.Ncb) : x.places.length = x.Ncb - x.F := by
  rw [places, List.length_append, List.length_range, List.length_range']
  omega

theorem places_getElem? {j : ℕ} (hfits : x.Foffset + x.F ≤ x.Ncb) (hj : j < x.Ncb - x.F) :
    x.places[j]? = some (if j < x.Foffset then j else j + x.F) := by
  unfold places
  split_ifs with hlt
  · rw [List.getElem?_append_left (by rw [List.length_range]; exact hlt), List.getElem?_range hlt]
  · rw [List.getElem?_append_right (by rw [List.length_range]; omega), List.length_range,
      List.getElem?_range' (by omega)]
    congr 1
    omega

theorem places_select (hfits : x.Foffset + x.F ≤ x.Ncb) (hF : x.F < x.Ncb) (k : ℕ) :
    x.places[(x.rank + k) % x.places.length]? = some (x.select k) := by
  rw [places_length hfits]
  exact places_getElem? hfits (Nat.mod_lt _ (by omega))

theorem rank_le (h : x.Valid w) (hF : x.F < x.Ncb) : x.rank ≤ x.Ncb - x.F := by
  have hk0 := k0_lt h.Z_pos (by omega)
  have hfits := h.fits
  unfold rank
  split_ifs <;> omega

/-- Before the end of the buffer the places follow one another. -/
theorem select_of_lt {k : ℕ} (hk : x.rank + k < x.Ncb - x.F) :
    x.select k = if x.rank + k < x.Foffset then x.rank + k else x.rank + k + x.F := by
  unfold select
  rw [Nat.mod_eq_of_lt hk]

/-! ## The transmitter -/

theorem memcpy_apply {e : ℕ → BitVec 8} {off src len i : ℕ} :
    memcpy e off w src len i = if off ≤ i ∧ i < off + len then w (src + (i - off)) else e i := by
  have hlen : (Memory.read w src len).length = len := by simp [Memory.read]
  unfold memcpy
  split_ifs with h
  · rw [Memory.write_of_le h.1, List.getElem?_eq_getElem (by omega), Option.getD_some]
    simp [Memory.read]
  · rcases Nat.lt_or_ge i off with hlt | hge
    · exact Memory.write_of_lt hlt
    · exact Memory.write_of_ge (by omega)

theorem run_put_apply {s : ℕ → ℕ} {e : ℕ → BitVec 8} : ∀ (m i : ℕ),
    CyclicWalk.run (put w) s 0 m e i = if i < m then w (s i) else e i
  | 0, i => rfl
  | m + 1, i => by
      rw [CyclicWalk.run_succ, put]
      rcases Nat.eq_or_lt_of_le (Nat.zero_le (i - m)) with hle | hlt
      · rcases Nat.eq_or_lt_of_le (Nat.le_of_sub_eq_zero hle.symm) with rfl | hlt
        · rw [Function.update_self, if_pos (Nat.lt_succ_self i)]
        · rw [Function.update_of_ne (Nat.ne_of_lt hlt), run_put_apply m i, if_pos hlt,
            if_pos (Nat.lt_succ_of_lt hlt)]
      · rw [Function.update_of_ne (by omega), run_put_apply m i, if_neg (by omega),
          if_neg (by omega)]

/-- The scan for bits that are not null is a pass over the places without filler. -/
theorem filter_range (h : x.Valid w) :
    ((List.range x.Ncb).filter fun ind => w ind != NR_NULL) = x.places := by
  have hfits := h.fits
  have hsplit : List.range x.Ncb = List.range x.Foffset ++ (List.range' x.Foffset x.F ++
      List.range' (x.Foffset + x.F) (x.Ncb - (x.Foffset + x.F))) := by
    rw [List.range'_append_1, List.range_eq_range', List.range_eq_range']
    have happend := List.range'_append_1 (s := 0) (m := x.Foffset)
      (n := x.F + (x.Ncb - (x.Foffset + x.F)))
    rw [Nat.zero_add] at happend
    rw [happend]
    congr 1
    omega
  have hkeep : ∀ i < x.Ncb, ¬ (x.Foffset ≤ i ∧ i < x.Foffset + x.F) → (w i != NR_NULL) = true :=
    fun i hi hnot => bne_iff_ne.mpr fun hnull => hnot ((h.null_iff i hi).mp hnull)
  rw [hsplit, List.filter_append, List.filter_append, places]
  congr 1
  · exact List.filter_eq_self.mpr fun i hi => hkeep i (by have := List.mem_range.mp hi; omega)
      (by have := List.mem_range.mp hi; omega)
  · rw [List.filter_eq_nil_iff.mpr, List.nil_append]
    · exact List.filter_eq_self.mpr fun i hi => by
        obtain ⟨h1, h2⟩ := List.mem_range'_1.mp hi
        exact hkeep i (by omega) (by omega)
    · intro i hi
      obtain ⟨h1, h2⟩ := List.mem_range'_1.mp hi
      rw [(h.null_iff i (by omega)).mpr ⟨h1, h2⟩]
      decide

/-- Copies of places that follow one another are the first part of the walk. -/
theorem memcpy_eq_run {e : ℕ → BitVec 8} {ind m : ℕ} (hm : x.rank + m ≤ x.Ncb - x.F)
    (hind : ∀ i < m, ind + i = if x.rank + i < x.Foffset then x.rank + i else x.rank + i + x.F) :
    memcpy e 0 w ind m = CyclicWalk.run (put w) x.select 0 m e := by
  funext i
  rw [memcpy_apply, run_put_apply, Nat.zero_add, Nat.sub_zero]
  by_cases hi : i < m
  · rw [if_pos ⟨Nat.zero_le i, hi⟩, if_pos hi, select_of_lt (by omega), hind i hi]
  · rw [if_neg fun h => hi h.2, if_neg hi]

/-- Two copies, one before the filler and one behind it. -/
theorem memcpy_memcpy_eq_run {e : ℕ → BitVec 8} {m m' : ℕ} (hrank : x.rank + m = x.Foffset)
    (hm : x.Foffset + m' ≤ x.Ncb - x.F) :
    memcpy (memcpy e 0 w x.rank m) m w (x.Foffset + x.F) m' =
      CyclicWalk.run (put w) x.select 0 (m + m') e := by
  rw [memcpy_eq_run (x := x) (by omega) fun i hi => by rw [if_pos (by omega)]]
  funext i
  rw [memcpy_apply, run_put_apply, run_put_apply]
  by_cases hi : i < m
  · rw [if_neg (by omega), if_pos hi, if_pos (by omega)]
  by_cases hi' : i < m + m'
  · rw [if_pos ⟨by omega, hi'⟩, if_pos hi', select_of_lt (by omega), if_neg (by omega)]
    congr 1
    omega
  · rw [if_neg fun h => hi' h.2, if_neg hi, if_neg hi']

/-- The copies are the first part of the walk. -/
theorem txCopy_eq (h : x.Valid w) (hF : x.F < x.Ncb) (hE : x.E + x.F < 2 ^ 32)
    (e : ℕ → BitVec 8) :
    x.txCopy w e = (CyclicWalk.run (put w) x.select 0 (min (x.Ncb - x.F - x.rank) x.E) e,
      min (x.Ncb - x.F - x.rank) x.E) := by
  have hk0 := k0_lt h.Z_pos (by omega)
  have hfits := h.fits
  have hoff := h.Foffset_le
  have hle := rank_le h hF
  have hwrap : wrap32 (x.E + x.F) = x.E + x.F := Nat.mod_eq_of_lt hE
  unfold txCopy
  simp only [hwrap]
  by_cases hbefore : x.k0 < x.Foffset
  · have hrank : x.rank = x.k0 := if_pos hbefore
    have hind : (if x.Foffset ≤ x.k0 ∧ x.k0 < x.F + x.Foffset then x.F + x.Foffset else x.k0) =
        x.rank := by rw [if_neg (by omega), hrank]
    rw [hind, if_pos (by omega)]
    split_ifs with hall
    · rw [memcpy_memcpy_eq_run (by omega) (by omega)]
      congr 2 <;> omega
    · rw [memcpy_memcpy_eq_run (by omega) (by omega)]
      congr 2 <;> omega
  · -- the start is behind the filler, or moved there
    have hind : (if x.Foffset ≤ x.k0 ∧ x.k0 < x.F + x.Foffset then x.F + x.Foffset else x.k0) =
        x.rank + x.F ∧ x.Foffset ≤ x.rank := by
      unfold rank
      split_ifs <;> omega
    rw [hind.1, if_neg (by omega)]
    split_ifs with hall
    · rw [memcpy_eq_run (x := x) (by omega) fun i _ => by rw [if_neg (by omega)]; omega]
      congr 2 <;> omega
    · rw [memcpy_eq_run (x := x) (by omega) fun i _ => by rw [if_neg (by omega)]; omega]
      congr 2 <;> omega

/-- What the transmitter returns and writes. -/
theorem tx_iff (h : x.Valid w) (hF : x.F < x.Ncb) (hE : x.E + x.F < 2 ^ 32) (e : ℕ → BitVec 8)
    (ret : ℤ) (e' : ℕ → BitVec 8) :
    x.NrRateMatchingLdpc w e ret e' ↔
      ret = 0 ∧ e' = fun k => if k < x.E then w (x.select k) else e k := by
  have hrefused : ¬ x.Refused := by
    have h1 := h.C_pos
    have h2 := h.Foffset_le
    have h3 := h.fits
    unfold Refused
    omega
  have hends : While.Ends (x.txBody w) (x.txCopy w e)
      (CyclicWalk.run (put w) x.select 0 x.E e, x.E) := by
    have hlen := places_length h.fits
    have hrank := rank_le h hF
    rw [txCopy_eq h hF hE, txBody, filter_range h]
    rw [← hlen, ← CyclicWalk.first_pass (by omega) (places_select h.fits hF)]
    exact CyclicWalk.ends (by omega) (by omega) (places_select h.fits hF)
  have hrun : CyclicWalk.run (put w) x.select 0 x.E e =
      fun k => if k < x.E then w (x.select k) else e k := funext fun k => run_put_apply x.E k
  rw [← hrun]
  constructor
  · intro hret
    cases hret with
    | refused href => exact absurd href hrefused
    | done _ hends' => exact ⟨rfl, congrArg Prod.fst (hends'.unique hends)⟩
  · rintro ⟨rfl, rfl⟩
    exact .done hrefused hends

/-! ## The receiver -/

variable {soft : ℕ → BitVec 16}

/-- A place gets the sum of the soft bits that were taken from it. -/
theorem run_add_apply {s : ℕ → ℕ} {v : ℕ → BitVec 16} : ∀ (m i : ℕ),
    CyclicWalk.run (add soft) s 0 m v i =
      v i + ∑ k ∈ (Finset.range m).filter fun k => s k = i, soft k
  | 0, i => by simp
  | m + 1, i => by
      rw [CyclicWalk.run_succ, add, Finset.range_add_one, Finset.filter_insert]
      rcases eq_or_ne (s m) i with rfl | hne
      · rw [if_pos rfl, Function.update_self, run_add_apply m,
          Finset.sum_insert (by simp), add_assoc, add_comm (soft m)]
      · rw [if_neg hne, Function.update_of_ne hne.symm, run_add_apply m]

/-- The first passage is over the places behind the start. -/
theorem rxFirst_eq (h : x.Valid w) (hF : x.F < x.Ncb) (v : ℕ → BitVec 16) :
    x.rxFirst soft v = CyclicWalk.pass (add soft) x.E (x.places.drop x.rank) (v, 0) := by
  have hk0 := k0_lt h.Z_pos (by omega)
  have hfits := h.fits
  have hoff := h.Foffset_le
  unfold rxFirst rank places
  by_cases hbefore : x.k0 < x.Foffset
  · have hdrop : (List.range x.Foffset).drop x.k0 = List.range' x.k0 (x.Foffset - x.k0) := by
      rw [List.range_eq_range', List.drop_range', Nat.zero_add, Nat.mul_one]
    have hind : (if x.Foffset ≤ min x.Foffset (x.k0 + x.E) ∧
        min x.Foffset (x.k0 + x.E) < x.Foffset + x.F then x.Foffset + x.F
        else min x.Foffset (x.k0 + x.E)) = x.Foffset + x.F := by
      split_ifs <;> omega
    simp only [if_pos hbefore, hind]
    rw [List.drop_append_of_le_length (by rw [List.length_range]; omega), hdrop,
      CyclicWalk.pass_append]
    rfl
  · have hdrop : ∀ j, (List.range x.Foffset ++ List.range' (x.Foffset + x.F)
        (x.Ncb - (x.Foffset + x.F))).drop (x.Foffset + j) =
          List.range' (x.Foffset + x.F + j) (x.Ncb - (x.Foffset + x.F + j)) := by
      intro j
      rw [List.drop_append, List.length_range, List.drop_of_length_le (by simp), List.nil_append,
        List.drop_range', Nat.add_sub_cancel_left, Nat.mul_one, Nat.sub_sub]
    simp only [if_neg hbefore]
    split_ifs with hin hrank
    · have hfront := hdrop 0
      rw [Nat.add_zero, Nat.add_zero] at hfront
      rw [hfront]
      rfl
    · omega
    · omega
    · rw [show x.k0 - x.F = x.Foffset + (x.k0 - (x.Foffset + x.F)) by omega, hdrop,
        show x.Foffset + x.F + (x.k0 - (x.Foffset + x.F)) = x.k0 by omega]
      rfl

/-- The repetitions are passes over all places. -/
theorem rxBody_eq : x.rxBody soft = CyclicWalk.body (add soft) x.E x.places := by
  funext s
  unfold rxBody rxFor CyclicWalk.body places
  rw [Nat.sub_zero, ← List.range_eq_range', CyclicWalk.pass_append]

/-- What the receiver returns and adds. -/
theorem rx_iff (h : x.Valid w) (hF : x.F < x.Ncb) (v : ℕ → BitVec 16) (ret : ℤ)
    (v' : ℕ → BitVec 16) :
    x.NrRateMatchingLdpcRx soft true v ret v' ↔
      ret = 0 ∧ v' = fun i => (if i < x.Ncb then 0 else v i) +
        ∑ k ∈ (Finset.range x.E).filter fun k => x.select k = i, soft k := by
  have hrefused : ¬ x.Refused := by
    have h1 := h.C_pos
    have h2 := h.Foffset_le
    have h3 := h.fits
    unfold Refused
    omega
  have hends : While.Ends (x.rxBody soft) (x.rxFirst soft (x.cleared true v))
      (CyclicWalk.run (add soft) x.select 0 x.E (x.cleared true v), x.E) := by
    have hlen := places_length h.fits
    have hrank := rank_le h hF
    rw [rxFirst_eq h hF, rxBody_eq]
    exact CyclicWalk.ends (by omega) (by omega) (places_select h.fits hF)
  have hrun : CyclicWalk.run (add soft) x.select 0 x.E (x.cleared true v) =
      fun i => (if i < x.Ncb then 0 else v i) +
        ∑ k ∈ (Finset.range x.E).filter fun k => x.select k = i, soft k := by
    funext i
    rw [run_add_apply]
    simp only [cleared, true_and]
  rw [← hrun]
  constructor
  · intro hret
    cases hret with
    | refused href => exact absurd href hrefused
    | done _ hends' => exact ⟨rfl, congrArg Prod.fst (hends'.unique hends)⟩
  · rintro ⟨rfl, rfl⟩
    exact .done hrefused hends

/-- How often a place is selected. -/
def selected (x : RateMatching) (i : ℕ) : ℕ :=
  ((Finset.range x.E).filter fun k => x.select k = i).card

/-- Transmitter and receiver agree for a buffer: what each of them writes, from which places, and
what a block that is sent and received adds up to. -/
structure Agree (x : RateMatching) (w : ℕ → BitVec 8) : Prop where
  select_lt : ∀ k, x.select k < x.Ncb
  not_null : ∀ k, w (x.select k) ≠ NR_NULL
  tx : ∀ (e : ℕ → BitVec 8) (ret : ℤ) (e' : ℕ → BitVec 8), x.NrRateMatchingLdpc w e ret e' ↔
    ret = 0 ∧ e' = fun k => if k < x.E then w (x.select k) else e k
  rx : ∀ (soft v : ℕ → BitVec 16) (ret : ℤ) (v' : ℕ → BitVec 16),
    x.NrRateMatchingLdpcRx soft true v ret v' ↔
      ret = 0 ∧ v' = fun i => (if i < x.Ncb then 0 else v i) +
        ∑ k ∈ (Finset.range x.E).filter fun k => x.select k = i, soft k
  loopback : ∀ Qm ∈ [2, 4, 6, 8], Qm ∣ x.E → ∀ (e f : ℕ → BitVec 8) (d v : ℕ → BitVec 16),
    ∃ e' f' d' v', x.NrRateMatchingLdpc w e 0 e' ∧ nrInterleavingLdpc x.E Qm e' f = some f' ∧
      nrDeinterleavingLdpc x.E Qm d (fun i => (f' i).setWidth 16) = some d' ∧
      (∀ k < x.E, d' k = (e' k).setWidth 16) ∧ x.NrRateMatchingLdpcRx d' true v 0 v' ∧
      ∀ i < x.Ncb, v' i = BitVec.ofNat 16 (x.selected i * (w i).toNat)

theorem select_bounds (h : x.Valid w) (hF : x.F < x.Ncb) (k : ℕ) :
    x.select k < x.Ncb ∧ ¬ (x.Foffset ≤ x.select k ∧ x.select k < x.Foffset + x.F) := by
  have hfits := h.fits
  have hlt : (x.rank + k) % (x.Ncb - x.F) < x.Ncb - x.F := Nat.mod_lt _ (by omega)
  unfold select
  simp only
  split_ifs <;> omega

/-- The sum of equal soft bits. -/
theorem sum_const {i : ℕ} {b : BitVec 8} {d : ℕ → BitVec 16}
    (hd : ∀ k < x.E, x.select k = i → d k = b.setWidth 16) :
    ∑ k ∈ (Finset.range x.E).filter fun k => x.select k = i, d k =
      BitVec.ofNat 16 (x.selected i * b.toNat) := by
  have hsum : ∑ k ∈ (Finset.range x.E).filter fun k => x.select k = i, d k =
      ∑ _k ∈ (Finset.range x.E).filter fun k => x.select k = i, b.setWidth 16 := by
    refine Finset.sum_congr rfl fun k hk => ?_
    obtain ⟨hk, hsel⟩ := Finset.mem_filter.mp hk
    exact hd k (Finset.mem_range.mp hk) hsel
  rw [hsum, Finset.sum_const, nsmul_eq_mul, BitVec.natCast_eq_ofNat, ← BitVec.ofNat_toNat,
    ← BitVec.ofNat_mul, selected]

/-- Rate matching and its inverse agree if there is a place without filler. -/
theorem agree (h : x.Valid w) (hF : x.F < x.Ncb) (hE : x.E + x.F < 2 ^ 32) : x.Agree w where
  select_lt := fun k => (select_bounds h hF k).1
  not_null := fun k hnull =>
    (select_bounds h hF k).2 ((h.null_iff _ (select_bounds h hF k).1).mp hnull)
  tx := tx_iff h hF hE
  rx := fun soft v => rx_iff h hF v
  loopback := by
    intro Qm hQm hdvd e f d v
    obtain ⟨f', d', hf', hd', hsame⟩ := deinterleaving_interleaving hQm hdvd
      (fun k => if k < x.E then w (x.select k) else e k) f d
    refine ⟨_, f', d', _, (tx_iff h hF hE e 0 _).mpr ⟨rfl, rfl⟩, hf', hd', hsame,
      (rx_iff h hF v 0 _).mpr ⟨rfl, rfl⟩, fun i hi => ?_⟩
    simp only [if_pos hi, zero_add]
    refine sum_const fun k hk hsel => ?_
    rw [hsame k hk, if_pos hk, hsel]

/-- A segment of 8 places without filler, sent one and a half times. -/
def small : RateMatching where
  Tbslbrm := 6
  BG := Fin.last 1
  Z := 2
  C := 1
  F := 1
  Foffset := 2
  rvidx := ⟨0, Nat.zero_lt_succ 3⟩
  E := 12

/-- The filler of `small`. -/
def smallBuffer (i : ℕ) : BitVec 8 := if i = 2 then NR_NULL else 1

theorem small_agree : small.Agree smallBuffer :=
  agree ⟨by decide, by decide, by decide, by decide, by decide, by decide⟩ (by decide) (by decide)

/-- Nothing but filler. -/
def onlyFiller : RateMatching where
  Tbslbrm := 0
  BG := Fin.last 1
  Z := 2
  C := 1
  F := 100
  Foffset := 0
  rvidx := ⟨0, Nat.zero_lt_succ 3⟩
  E := 2

/-- Without a place that holds no filler the transmitter does not end. -/
theorem onlyFiller_endless : onlyFiller.Valid (fun _ => NR_NULL) ∧
    ¬ ∃ ret e', onlyFiller.NrRateMatchingLdpc (fun _ => NR_NULL) (fun _ => 0) ret e' := by
  constructor
  · exact ⟨by decide, by decide, by decide, by decide, by decide, fun i hi =>
      iff_of_true rfl ⟨Nat.zero_le i, hi⟩⟩
  · rintro ⟨ret, e', h⟩
    cases h with
    | refused href => exact absurd href (by decide)
    | done _ hends =>
        have hcopy : (onlyFiller.txCopy (fun _ => NR_NULL) fun _ => 0).2 = 0 := by decide
        have hstuck : ∀ s : (ℕ → BitVec 8) × ℕ, s.2 = 0 → onlyFiller.txBody (fun _ => NR_NULL) s =
            some s := by
          intro s hs
          have hnil : ((List.range onlyFiller.Ncb).filter fun _ => NR_NULL != NR_NULL) = [] := by
            simp
          rw [txBody, CyclicWalk.body, if_pos (by rw [hs]; decide), hnil]
          rfl
        exact While.not_ends_of_stuck (hstuck _ hcopy) hends

end RateMatching

end OaiCu.NrLdpc
