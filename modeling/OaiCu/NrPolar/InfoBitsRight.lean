import OaiCu.NrPolar.Codes
import OaiCu.NrPolar.InfoBits

/-!
# NR polar codes: the information bits are the right ones

There are as many as bits of the message, none of them is left out by the rate matching, and the bits
of the code word that are left out by shortening are zero. The length of the code word is that of
TS 38.212, 5.3.1, but for high rates a little above a power of two.
-/

namespace OaiCu.NrPolar

open CountedCells

variable {K N E n : ℕ} {q0 l : List ℕ}

/-! ## What the arrays hold -/

theorem freezeJ_eq (a : ℕ → ℤ) (hn : n < N) : freezeJ (arrayJ N) N a n = push N a (subblock N n) := by
  rw [freezeJ, read_of_lt hn]
  rfl

theorem frozenTmp_eq : frozenTmp K N E =
    if E < N then
      if 16 * K ≤ 7 * E then (List.range (N - E)).map (subblock N) ++ List.range (limit N E)
      else (List.range' E (N - E)).map (subblock N)
    else [] := rfl

theorem fillFrozen_holds (h : (frozenTmp K N E).length ≤ N) :
    ∃ a, fillFrozen (arrayJ N) K N E = some a ∧ Holds N a (frozenTmp K N E) := by
  unfold fillFrozen
  rw [frozenTmp_eq] at h ⊢
  by_cases hlt : E < N
  · have hfreeze : ∀ ms : List ℕ, (∀ m ∈ ms, m < N) → ms.length ≤ N →
        ∃ a, ms.foldlM (freezeJ (arrayJ N) N) empty = some a ∧ Holds N a (ms.map (subblock N)) :=
      fun ms hms hlen => foldlM_push (f := subblock N) (fun m hm a => freezeJ_eq a (hms m hm))
        (holds_empty N) (by rwa [List.length_nil, Nat.zero_add])
    rw [if_pos hlt] at h ⊢
    rw [if_pos hlt]
    by_cases hpunct : 16 * K ≤ 7 * E
    · rw [if_pos hpunct] at h ⊢
      rw [if_pos hpunct]
      obtain ⟨a, ha, hholds⟩ := hfreeze (List.range (N - E))
        (fun m hm => (List.mem_range.mp hm).trans_le (Nat.sub_le N E))
        (by rw [List.length_range]; exact Nat.sub_le N E)
      rw [List.length_append, List.length_range] at h
      obtain ⟨b, hb, hholds'⟩ := foldlM_push (f := id) (fun m _ a => rfl) hholds
        (by rwa [List.length_range])
      rw [List.map_id] at hholds'
      refine ⟨b, ?_, hholds'⟩
      rw [ha]
      exact hb
    · rw [if_neg hpunct]
      rw [if_neg hpunct]
      refine hfreeze _ (fun m hm => ?_) (by rw [List.length_range']; exact Nat.sub_le N E)
      have := List.mem_range'_1.mp hm
      omega
  · rw [if_neg hlt]
    rw [if_neg hlt]
    exact ⟨empty, rfl, holds_empty N⟩

/-- The loops over the sequence take out what is in the array. -/
theorem subtract_holds {size len : ℕ} {taken out : ℕ → ℤ} (hq0 : q0.length = N)
    (htaken : Starts taken l) (hlen : l.length = len) (hsize : len ≤ size) (hout : Holds N out []) :
    ∃ a, subtract q0 N size len taken out = some a ∧ Holds N a (q0.filter fun q => q ∉ l) := by
  subst hlen
  have hloop := foldlM_range (n := N) (f := fun out n => do
      let q : ℕ ← q0[n]?
      if ← search size taken q (List.range l.length) then some out else push N out q)
    (P := fun n a => Holds N a ((q0.take n).filter fun q => q ∉ l)) (s := out) (by simpa using hout)
    (by
      intro i hi a ha
      have hiq : i < q0.length := hq0 ▸ hi
      have htake : (q0.take (i + 1)).filter (fun q => q ∉ l) =
          (q0.take i).filter (fun q => q ∉ l) ++ if q0[i] ∉ l then [q0[i]] else [] := by
        rw [List.take_succ_eq_append_getElem hiq, List.filter_append, List.filter_singleton]
        simp only [decide_eq_true_eq, Bool.cond_eq_ite]
      simp only [List.getElem?_eq_getElem hiq, Option.bind_eq_bind, Option.bind_some,
        search_starts htaken hsize, htake]
      by_cases hmem : q0[i] ∈ l
      · refine ⟨a, by rw [if_pos (decide_eq_true hmem)], ?_⟩
        rwa [if_neg (not_not.mpr hmem), List.append_nil]
      · have hroom : ((q0.take i).filter fun q => q ∉ l).length < N := by
          have := List.length_filter_le (fun q => decide (q ∉ l)) (q0.take i)
          rw [List.length_take] at this
          omega
        obtain ⟨b, hb, hholds⟩ := push_holds (v := q0[i]) ha hroom
        refine ⟨b, ?_, by rwa [if_pos hmem]⟩
        rw [if_neg (by simpa using hmem)]
        exact hb)
  rwa [← hq0, List.take_length, hq0] at hloop

theorem mostReliable_starts {a : ℕ → ℤ} (h : Holds N a l) (hN : N < 32768) (hK : K ≤ l.length)
    (qIN : ℕ → ℤ) : ∃ b, mostReliable N K a qIN = some b ∧ Starts b (l.drop (l.length - K)) := by
  obtain ⟨b, hb, hP⟩ := foldlM_range (n := K) (f := fun qIN n => do
      let q ← read (N + 1) a ((a N + n - (K - 1)) % 65536)
      store K qIN n q)
    (P := fun n b => ∀ i (hi : l.length - K + i < l.length), i < n → b i = l[l.length - K + i])
    (s := qIN) (fun _ _ h => absurd h (Nat.not_lt_zero _)) (by
      intro i hi b hP
      have hle := h.length_le
      have hlt : l.length - K + i < l.length := by omega
      have hind : (a N + i - ((K : ℤ) - 1)) % 65536 = (l.length - K + i : ℕ) := by
        rw [h.counter]
        omega
      refine ⟨Function.update b i l[l.length - K + i], ?_, ?_⟩
      · rw [hind, read_of_lt (by omega), h.starts _ hlt]
        exact store_of_lt hi
      · intro j hj hji
        rcases Nat.lt_succ_iff_lt_or_eq.mp hji with hlt' | rfl
        · rw [Function.update_of_ne hlt'.ne, hP j hj hlt']
        · rw [Function.update_self])
  refine ⟨b, hb, fun i hi => ?_⟩
  rw [List.length_drop] at hi
  rw [List.getElem_drop, hP i (by omega) (by omega)]

theorem markInfo_eq {qIN : ℕ → ℤ} (h : Starts qIN l) (hlen : l.length = K) (ibp : ℕ → ℤ) :
    ∃ b, markInfo N K qIN ibp = some b ∧ ∀ n < N, b n = if n ∈ l then 1 else 0 := by
  subst hlen
  obtain ⟨b, hb, hP⟩ := foldlM_range (n := N) (f := fun ibp n => do
      let ibp ← store N ibp n 0
      if ← search l.length qIN n (List.range l.length) then store N ibp n 1 else some ibp)
    (P := fun n b => ∀ i < n, b i = if i ∈ l then 1 else 0) (s := ibp)
    (fun _ h => absurd h (Nat.not_lt_zero _)) (by
      intro i hi b hP
      have hbelow : ∀ v : ℤ, ∀ j < i, Function.update b i v j = if j ∈ l then 1 else 0 := by
        intro v j hj
        rw [Function.update_of_ne hj.ne, hP j hj]
      simp only [store_of_lt hi, Option.bind_eq_bind, Option.bind_some, search_starts h le_rfl]
      by_cases hmem : i ∈ l
      · refine ⟨Function.update b i 1, ?_, ?_⟩
        · rw [if_pos (decide_eq_true hmem), Function.update_idem]
        · intro j hj
          rcases Nat.lt_succ_iff_lt_or_eq.mp hj with hlt | rfl
          · exact hbelow 1 j hlt
          · rw [Function.update_self, if_pos hmem]
      · refine ⟨Function.update b i 0, ?_, ?_⟩
        · rw [if_neg (by simpa using hmem)]
        · intro j hj
          rcases Nat.lt_succ_iff_lt_or_eq.mp hj with hlt | rfl
          · exact hbelow 0 j hlt
          · rw [Function.update_self, if_neg hmem])
  exact ⟨b, hb, hP⟩

/-- The bits that may carry information, by reliability. -/
def available (q0 : List ℕ) (K N E : ℕ) : List ℕ := q0.filter fun q => q ∉ frozenTmp K N E

/-- The `K` most reliable ones. -/
def reliable (q0 : List ℕ) (K N E : ℕ) : List ℕ :=
  (available q0 K N E).drop ((available q0 K N E).length - K)

theorem length_reliable (h : K ≤ (available q0 K N E).length) : (reliable q0 K N E).length = K := by
  rw [reliable, List.length_drop]
  omega

theorem mem_reliable {q : ℕ} (h : q ∈ reliable q0 K N E) : q ∈ q0 ∧ q ∉ frozenTmp K N E := by
  have h := List.mem_filter.mp (List.mem_of_mem_drop h)
  exact ⟨h.1, of_decide_eq_true h.2⟩

/-- **The function stays inside of its arrays** and marks the most reliable bits. -/
theorem nrPolarInfoBitPattern_eq (hq0 : q0.length = N) (hN : N < 32768)
    (hfrozen : (frozenTmp K N E).length ≤ N) (hroom : K ≤ (available q0 K N E).length)
    (ibp qIN : ℕ → ℤ) :
    ∃ p, nrPolarInfoBitPattern (arrayJ N) q0 K N E 0 { ibp, qIN, qFN := empty } = some p ∧
      Starts p.qIN (reliable q0 K N E) ∧
      ∀ n < N, p.ibp n = if n ∈ reliable q0 K N E then 1 else 0 := by
  obtain ⟨qFtmpN, hqFtmpN, hfrozenHolds⟩ := fillFrozen_holds hfrozen
  have hcount : (qFtmpN N + 1).toNat = (frozenTmp K N E).length := by
    rw [hfrozenHolds.counter_add_one, Int.toNat_natCast]
  obtain ⟨qItmpN, hqItmpN, havailable⟩ :=
    subtract_holds hq0 hfrozenHolds.starts rfl (Nat.le_succ_of_le hfrozen) (holds_empty N)
  obtain ⟨qIN', hqIN', hstarts⟩ := mostReliable_starts havailable hN hroom qIN
  have hlen := length_reliable hroom
  obtain ⟨qFN, hqFN, -⟩ := subtract_holds hq0 hstarts hlen le_rfl (holds_empty N)
  obtain ⟨ibp', hibp', hmarks⟩ := markInfo_eq hstarts hlen ibp
  refine ⟨⟨ibp', qIN', qFN⟩, ?_, hstarts, hmarks⟩
  simp only [nrPolarInfoBitPattern, hqFtmpN, hcount, hqItmpN, Nat.add_zero, hqIN', hqFN, hibp',
    Option.bind_eq_bind, Option.bind_some]

/-! ## There is room -/

set_option maxRecDepth 20000 in
theorem q0Nminus1_perm (h5 : 5 ≤ n) (h10 : n ≤ 10) : (q0Nminus1 n).Perm (List.range (2 ^ n)) := by
  have hn : n = 5 ∨ n = 6 ∨ n = 7 ∨ n = 8 ∨ n = 9 ∨ n = 10 := by omega
  rcases hn with rfl | rfl | rfl | rfl | rfl | rfl
  all_goals exact perm_of_mask (by decide) (by decide)

theorem two_pow_add_five (k : ℕ) : 2 ^ (k + 5) = 32 * 2 ^ k := by ring

/-- A position of the subblock interleaver: its group, and its place there. -/
theorem subblock_eq {g : ℕ} (hg : 0 < g) (m : ℕ) :
    subblock (32 * g) m = g * nrPolarSubblockInterleaverPattern.getD (m / g) 0 + m % g := by
  have hgroup := subblock_group (t := m / g) (Nat.mod_lt m hg)
  rwa [Nat.div_add_mod] at hgroup

theorem subblock_lt {g : ℕ} (hg : 0 < g) (m : ℕ) : subblock (32 * g) m < 32 * g := by
  have hlt := Nat.mod_lt m hg
  have hle := Nat.mul_le_mul_left g (subblockPattern_lt (m / g))
  rw [subblock_eq hg]
  rw [Nat.mul_succ] at hle
  omega

/-- With strong puncturing the upper groups are left free. -/
theorem frozenTmp_lt {g q : ℕ} (hpunct : 16 * K ≤ 7 * E) (hlow : 18 * g < E) (hhigh : E < 24 * g)
    (hq : q ∈ frozenTmp K (32 * g) E) : q < 19 * g := by
  have hg : 0 < g := by omega
  have hfront : ∀ t < 14, nrPolarSubblockInterleaverPattern.getD t 0 + 1 ≤ 19 := by decide
  rw [frozenTmp_eq, if_pos (by omega), if_pos hpunct, List.mem_append, List.mem_map] at hq
  rcases hq with ⟨m, hm, rfl⟩ | hq
  · have hm := List.mem_range.mp hm
    have hgroup : m / g < 14 := (Nat.div_lt_iff_lt_mul hg).mpr (by omega)
    have hle := Nat.mul_le_mul_left g (hfront (m / g) hgroup)
    have hlt := Nat.mod_lt m hg
    rw [subblock_eq hg]
    rw [Nat.mul_succ] at hle
    omega
  · have hq := List.mem_range.mp hq
    unfold limit at hq
    rw [if_neg (by omega)] at hq
    omega

/-- **The frozen bits fit into their array** and leave room for the message. -/
theorem room {g : ℕ} (hperm : q0.Perm (List.range (32 * g))) (hKN : K ≤ 32 * g)
    (hKE : K ≤ E) (hpunct : E < 32 * g → 16 * K ≤ 7 * E → 18 * g < E) :
    (frozenTmp K (32 * g) E).length ≤ 32 * g ∧ K ≤ (available q0 K (32 * g) E).length := by
  have hlen : q0.length = 32 * g := by simpa using hperm.length_eq
  have hfree : ∀ t', frozenTmp K (32 * g) E ⊆ t' →
      32 * g ≤ (available q0 K (32 * g) E).length + t'.length := by
    intro t' hsub
    have hle := length_le_filter_add (hperm.nodup_iff.mpr List.nodup_range) hsub
    rwa [hlen] at hle
  have hall := hfree _ (List.Subset.refl _)
  have hfrozen := length_frozenTmp K (32 * g) E
  by_cases hlt : E < 32 * g
  · by_cases hp : 16 * K ≤ 7 * E
    · have hlow := hpunct hlt hp
      rw [if_pos hlt, if_pos hp] at hfrozen
      by_cases hmany : 3 * (32 * g) ≤ 4 * E
      · rw [if_pos hmany] at hfrozen
        omega
      · have hupper := hfree (List.range (19 * g)) fun q hq =>
          List.mem_range.mpr (frozenTmp_lt hp hlow (by omega) hq)
        rw [List.length_range] at hupper
        rw [if_neg hmany] at hfrozen
        omega
    · rw [if_pos hlt, if_neg hp] at hfrozen
      omega
  · rw [if_neg hlt] at hfrozen
    omega

/-! ## The length of the code word -/

/-- The length of TS 38.212, 5.3.1. -/
def standardOutputLength (K E nMax : ℕ) : ℕ :=
  let n1 :=
    if (E : ℚ) ≤ 9 / 8 * 2 ^ (Nat.clog 2 E - 1) ∧ (K : ℚ) / E < 9 / 16 then Nat.clog 2 E - 1
    else Nat.clog 2 E
  let n2 := Nat.clog 2 (8 * K)
  2 ^ max 5 (min n2 (min n1 nMax))

/-- The channel has a little more bits than a power of two, and the rate is high: then the length is
rounded up, as long as there are longer codes. -/
def RoundsUp (K E nMax : ℕ) : Prop :=
  K < E ∧ 9 * E ≤ 16 * K ∧ 8 * E ≤ 9 * 2 ^ (Nat.clog 2 E - 1) ∧ 5 < Nat.clog 2 E ∧
    Nat.clog 2 E ≤ nMax

/-- **The division of integers makes the difference.** -/
theorem outputLength_eq_iff (nMax : ℕ) (hK : 0 < K) (hKE : K ≤ E) :
    nrPolarOutputLength K E nMax = standardOutputLength K E nMax ↔ ¬ RoundsUp K E nMax := by
  have hE : (0 : ℚ) < E := by exact_mod_cast hK.trans_le hKE
  have hlen : (E : ℚ) ≤ 9 / 8 * 2 ^ (Nat.clog 2 E - 1) ↔ 8 * E ≤ 9 * 2 ^ (Nat.clog 2 E - 1) := by
    rw [show (9 : ℚ) / 8 * 2 ^ (Nat.clog 2 E - 1) = 9 * 2 ^ (Nat.clog 2 E - 1) / 8 by ring,
      le_div_iff₀ (by norm_num), mul_comm]
    exact_mod_cast Iff.rfl
  have hrate : (K : ℚ) / E < 9 / 16 ↔ 16 * K < 9 * E := by
    rw [div_lt_div_iff₀ hE (by norm_num), mul_comm]
    exact_mod_cast Iff.rfl
  have hdiv : 16 * (K / E) < 9 ↔ K < E := by
    rcases hKE.lt_or_eq with hlt | rfl
    · rw [Nat.div_eq_of_lt hlt]
      exact iff_of_true (by norm_num) hlt
    · rw [Nat.div_self hK]
      exact iff_of_false (by norm_num) (lt_irrefl K)
  have hrounds : 9 * E ≤ 16 * K → Nat.clog 2 E ≤ Nat.clog 2 (8 * K) :=
    fun h => Nat.clog_mono_right 2 (by omega)
  unfold nrPolarOutputLength standardOutputLength RoundsUp
  simp only [hlen, hrate, hdiv, (Nat.pow_right_injective le_rfl).eq_iff]
  by_cases hclose : 8 * E ≤ 9 * 2 ^ (Nat.clog 2 E - 1)
  · by_cases hhigh : 9 * E ≤ 16 * K
    · have := hrounds hhigh
      rw [if_neg fun h : _ ∧ 16 * K < 9 * E => absurd h.2 (Nat.not_lt.mpr hhigh)]
      by_cases hlt : K < E
      · rw [if_pos ⟨hclose, hlt⟩]
        omega
      · rw [if_neg fun h => hlt h.2]
        omega
    · rw [if_pos ⟨hclose, (by omega : K < E)⟩, if_pos ⟨hclose, (by omega : 16 * K < 9 * E)⟩]
      omega
  · rw [if_neg fun h => hclose h.1, if_neg fun h => hclose h.1]
    omega

/-- Puncturing takes away less than seven sixteenths. -/
theorem outputLength_spec {nMax : ℕ} (hK : 18 ≤ K) (hKE : K ≤ E) (hmax : nMax ≤ 10) :
    ∃ n, 5 ≤ n ∧ n ≤ 10 ∧ nrPolarOutputLength K E nMax = 2 ^ n ∧
      (E < 2 ^ n → 16 * K ≤ 7 * E → 9 * 2 ^ n < 16 * E) := by
  unfold nrPolarOutputLength
  refine ⟨_, le_max_left 5 _, by omega, rfl, fun hlt hpunct => ?_⟩
  have hclog : 5 ≤ Nat.clog 2 E := (Nat.lt_clog_iff_pow_lt (by decide)).mpr (by omega)
  have hbelow : 2 ^ (Nat.clog 2 E - 1) < E := Nat.pow_pred_clog_lt_self (by decide) (by omega)
  have hdouble : 2 ^ Nat.clog 2 E = 2 * 2 ^ (Nat.clog 2 E - 1) := by
    rw [← pow_succ', Nat.sub_add_cancel (by omega)]
  have hdiv : K / E = 0 := Nat.div_eq_of_lt (by omega)
  split at hlt
  · rename_i hclose
    by_cases h5 : Nat.clog 2 E = 5
    · rw [h5] at hclose
      omega
    · have hpow : 2 ^ max 5 (min (Nat.clog 2 (8 * K)) (min (Nat.clog 2 E - 1) nMax)) ≤
          2 ^ (Nat.clog 2 E - 1) := Nat.pow_le_pow_right (by decide) (by omega)
      omega
  · rename_i hfar
    rw [if_neg hfar]
    have hfar : 9 * 2 ^ (Nat.clog 2 E - 1) < 8 * E := by
      by_contra hle
      exact hfar ⟨not_lt.mp hle, by rw [hdiv]; decide⟩
    have hpow : 2 ^ max 5 (min (Nat.clog 2 (8 * K)) (min (Nat.clog 2 E) nMax)) ≤
        2 ^ Nat.clog 2 E := Nat.pow_le_pow_right (by decide) (by omega)
    omega

/-! ## Shortening -/

/-- The bits of `a` are bits of `b`. -/
theorem le_of_testBit {a b : ℕ} (h : ∀ i, a.testBit i = true → b.testBit i = true) : a ≤ b := by
  have hand : a &&& b = a := by
    refine Nat.eq_of_testBit_eq fun i => ?_
    rw [Nat.testBit_and]
    cases ha : a.testBit i with
    | false => rfl
    | true => rw [h i ha, Bool.and_self]
  rw [← hand]
  exact Nat.and_le_right

/-- The generator matrix has ones only where the bits of the column are bits of the row. -/
theorem testBit_of_kroneckerPower {i j : ℕ} (h : kroneckerPower n i j ≠ 0) {b : ℕ} (hb : b < n)
    (hj : j.testBit b = true) : i.testBit b = true := by
  induction n with
  | zero => cases hb
  | succ n ih =>
      unfold kroneckerPower at h
      split at h
      · exact absurd rfl h
      · rename_i hbits
        rcases Nat.lt_succ_iff_lt_or_eq.mp hb with hlt | rfl
        · exact ih h hlt
        · by_contra hi
          exact hbits ⟨Bool.eq_false_of_not_eq_true hi, hj⟩

/-- The interleaver of the groups respects the order of their bits. -/
theorem subblockPattern_le : ∀ t < 32, ∀ t' < 32,
    (∀ b < 5, (nrPolarSubblockInterleaverPattern.getD t 0).testBit b = true →
      (nrPolarSubblockInterleaverPattern.getD t' 0).testBit b = true) → t ≤ t' := by
  decide

theorem subblockPattern_surjective : ∀ p < 32, ∃ t < 32,
    nrPolarSubblockInterleaverPattern.getD t 0 = p := by
  decide

/-- The subblock interleaver takes every position. -/
theorem subblock_surjective {g j : ℕ} (hg : 0 < g) (hj : j < 32 * g) :
    ∃ m < 32 * g, subblock (32 * g) m = j := by
  obtain ⟨t, ht, hp⟩ := subblockPattern_surjective (j / g)
    ((Nat.div_lt_iff_lt_mul hg).mpr hj)
  have hlt := Nat.mod_lt j hg
  have hle := Nat.mul_le_mul_left g (Nat.succ_le_of_lt ht)
  refine ⟨g * t + j % g, ?_, ?_⟩
  · rw [Nat.mul_succ] at hle
    omega
  · rw [subblock_group hlt, hp, Nat.div_add_mod]

/-- **The generator matrix respects the order of the interleaver**: a row reaches only positions that
come no later. -/
theorem le_of_kroneckerPower {k m m' : ℕ} (hm : m < 32 * 2 ^ k) (hm' : m' < 32 * 2 ^ k)
    (h : kroneckerPower (k + 5) (subblock (32 * 2 ^ k) m') (subblock (32 * 2 ^ k) m) ≠ 0) :
    m ≤ m' := by
  have hg : 0 < 2 ^ k := Nat.two_pow_pos k
  have hgroup : ∀ x, subblock (32 * 2 ^ k) x / 2 ^ k =
      nrPolarSubblockInterleaverPattern.getD (x / 2 ^ k) 0 := by
    intro x
    rw [subblock_eq hg, Nat.mul_add_div hg, Nat.div_eq_of_lt (Nat.mod_lt _ hg), Nat.add_zero]
  have hplace : ∀ x, subblock (32 * 2 ^ k) x % 2 ^ k = x % 2 ^ k := by
    intro x
    rw [subblock_eq hg, Nat.mul_add_mod, Nat.mod_mod]
  have hle : m / 2 ^ k ≤ m' / 2 ^ k := by
    refine subblockPattern_le _ ((Nat.div_lt_iff_lt_mul hg).mpr hm) _
      ((Nat.div_lt_iff_lt_mul hg).mpr hm') fun b hb hbit => ?_
    rw [← hgroup, Nat.testBit_div_two_pow] at hbit ⊢
    exact testBit_of_kroneckerPower h (by omega) hbit
  rcases hle.lt_or_eq with hlt | heq
  · exact (Nat.lt_of_div_lt_div hlt).le
  · have hrest : m % 2 ^ k ≤ m' % 2 ^ k := by
      rw [← hplace m, ← hplace m']
      refine le_of_testBit fun b hbit => ?_
      rw [Nat.testBit_mod_two_pow, Bool.and_eq_true, decide_eq_true_iff] at hbit ⊢
      exact ⟨hbit.1, testBit_of_kroneckerPower h (by omega) hbit.2⟩
    calc m = 2 ^ k * (m / 2 ^ k) + m % 2 ^ k := (Nat.div_add_mod m (2 ^ k)).symm
      _ ≤ 2 ^ k * (m' / 2 ^ k) + m' % 2 ^ k := by
          rw [heq]
          exact Nat.add_le_add_left hrest _
      _ = m' := Nat.div_add_mod m' (2 ^ k)

theorem nrMatrixMultiplication_eq_zero {u : ℕ → UInt8} {g : ℕ → ℕ → UInt8} {row j : ℕ}
    (h : ∀ i < row, u i * g i j = 0) : nrMatrixMultiplication u g row j = 0 := by
  unfold nrMatrixMultiplication
  induction row with
  | zero => rfl
  | succ row ih =>
      rw [List.range_succ, List.foldl_append, ih fun i hi => h i (Nat.lt_succ_of_lt hi),
        List.foldl_cons, List.foldl_nil, h row (Nat.lt_succ_self row)]
      rfl

/-- **A shortened bit of the code word is zero.** -/
theorem shortened_zero {kroneckerPowerMatrices : ℕ → ℕ → ℕ → UInt8}
    (hkron : GivesKroneckerPowers kroneckerPowerMatrices) {k m : ℕ} {u : ℕ → UInt8}
    (hshort : ¬ 16 * K ≤ 7 * E) (hu : ∀ i ∈ frozenTmp K (32 * 2 ^ k) E, u i = 0) (hm : E ≤ m)
    (hlt : m < 32 * 2 ^ k) :
    nrMatrixMultiplication u (kroneckerPowerMatrices (k + 5)) (32 * 2 ^ k)
      (subblock (32 * 2 ^ k) m) = 0 := by
  have hg : 0 < 2 ^ k := Nat.two_pow_pos k
  have hN := two_pow_add_five k
  refine nrMatrixMultiplication_eq_zero fun i hi => ?_
  obtain ⟨m', hm', rfl⟩ := subblock_surjective hg hi
  rw [hkron (k + 5) _ _ (hN.symm ▸ subblock_lt hg m') (hN.symm ▸ subblock_lt hg m)]
  by_cases hzero : kroneckerPower (k + 5) (subblock (32 * 2 ^ k) m') (subblock (32 * 2 ^ k) m) = 0
  · rw [hzero]
    exact UInt8.mul_zero
  · have hle := le_of_kroneckerPower hlt hm' hzero
    have hmem : subblock (32 * 2 ^ k) m' ∈ frozenTmp K (32 * 2 ^ k) E := by
      rw [frozenTmp_eq, if_pos (by omega), if_neg hshort]
      exact List.mem_map_of_mem (List.mem_range'_1.mpr (by omega))
    rw [hu _ hmem]
    exact UInt8.zero_mul

/-! ## The code -/

/-- The sorted `Q_I_N`. -/
def BitPattern.infoList (p : BitPattern) (K : ℕ) : List ℕ :=
  ((List.range K).map fun m => (p.qIN m).toNat).mergeSort

/-- What the pattern is to be like. -/
structure PatternRight (kroneckerPowerMatrices : ℕ → ℕ → ℕ → UInt8) (K N E : ℕ) (p : BitPattern) :
    Prop where
  marks : ∀ n < N, p.ibp n = 0 ∨ p.ibp n = 1
  count : ((List.range N).filter fun n => p.ibp n = 1).length = K
  punctured : E < N → 16 * K ≤ 7 * E → ∀ n < N - E, p.ibp (subblock N n) = 0
  shortened : E < N → ¬ 16 * K ≤ 7 * E → ∀ n, E ≤ n → n < N → p.ibp (subblock N n) = 0
  zero : E < N → ¬ 16 * K ≤ 7 * E → ∀ (payload : ℕ → UInt8), ∀ j < N,
    (∀ k < E, nrPolarRateMatchingPattern K N E k ≠ j) →
      nrMatrixMultiplication (nrPolarBitInsertion payload (p.infoList K))
        (kroneckerPowerMatrices (Nat.log 2 N)) N j % 2 = 0

/-- What the code is to be like. -/
structure CodeRight (kroneckerPowerMatrices : ℕ → ℕ → ℕ → UInt8) (K E nMax : ℕ) : Prop where
  length : nrPolarOutputLength K E nMax = standardOutputLength K E nMax
  pattern : K ≤ nrPolarOutputLength K E nMax → ∀ ibp qIN : ℕ → ℤ, ∃ p,
    nrPolarInfoBitPattern (arrayJ (nrPolarOutputLength K E nMax))
      (q0Nminus1 (Nat.log 2 (nrPolarOutputLength K E nMax))) K (nrPolarOutputLength K E nMax) E 0
      { ibp, qIN, qFN := empty } = some p ∧
    PatternRight kroneckerPowerMatrices K (nrPolarOutputLength K E nMax) E p

theorem mem_infoList {p : BitPattern} (h : Starts p.qIN l) (hlen : l.length = K) {q : ℕ} :
    q ∈ p.infoList K ↔ q ∈ l := by
  rw [BitPattern.infoList, List.mem_mergeSort, List.mem_map, List.mem_iff_getElem]
  constructor
  · rintro ⟨m, hm, rfl⟩
    have hm : m < l.length := hlen ▸ List.mem_range.mp hm
    exact ⟨m, hm, by rw [h m hm, Int.toNat_natCast]⟩
  · rintro ⟨m, hm, rfl⟩
    exact ⟨m, List.mem_range.mpr (hlen ▸ hm), by rw [h m hm, Int.toNat_natCast]⟩

/-- **The pattern is right**, also for the lengths that are not those of the standard. -/
theorem pattern_right {kroneckerPowerMatrices : ℕ → ℕ → ℕ → UInt8}
    (hkron : GivesKroneckerPowers kroneckerPowerMatrices) (h5 : 5 ≤ n) (h10 : n ≤ 10)
    (hKN : K ≤ 2 ^ n) (hKE : K ≤ E) (hpunct : E < 2 ^ n → 16 * K ≤ 7 * E → 9 * 2 ^ n < 16 * E)
    (ibp qIN : ℕ → ℤ) :
    ∃ p, nrPolarInfoBitPattern (arrayJ (2 ^ n)) (q0Nminus1 n) K (2 ^ n) E 0
        { ibp, qIN, qFN := empty } = some p ∧
      PatternRight kroneckerPowerMatrices K (2 ^ n) E p := by
  obtain ⟨k, rfl⟩ := Nat.exists_eq_add_of_le' h5
  have hN := two_pow_add_five k
  have hperm := q0Nminus1_perm h5 h10
  have hsmall : 2 ^ (k + 5) ≤ 2 ^ 10 := Nat.pow_le_pow_right (by decide) h10
  have hlog : Nat.log 2 (32 * 2 ^ k) = k + 5 := by
    rw [← hN]
    exact Nat.log_pow (by decide) _
  rw [hN] at hKN hpunct hperm hsmall ⊢
  have hg : 0 < 2 ^ k := Nat.two_pow_pos k
  obtain ⟨hfrozen, hroom⟩ := room hperm hKN hKE fun hlt hp => by
    have := hpunct hlt hp
    omega
  have hlen : (q0Nminus1 (k + 5)).length = 32 * 2 ^ k := by simpa using hperm.length_eq
  obtain ⟨p, hp, hstarts, hmarks⟩ := nrPolarInfoBitPattern_eq hlen (by omega) hfrozen hroom ibp qIN
  have hfree : ∀ q ∈ frozenTmp K (32 * 2 ^ k) E,
      q ∉ reliable (q0Nminus1 (k + 5)) K (32 * 2 ^ k) E := fun q hq hrel => (mem_reliable hrel).2 hq
  have hpunctured : E < 32 * 2 ^ k → 16 * K ≤ 7 * E → ∀ n < 32 * 2 ^ k - E,
      subblock (32 * 2 ^ k) n ∈ frozenTmp K (32 * 2 ^ k) E := by
    intro hlt hpunct n hn
    rw [frozenTmp_eq, if_pos hlt, if_pos hpunct]
    exact List.mem_append_left _ (List.mem_map_of_mem (List.mem_range.mpr hn))
  have hshortened : E < 32 * 2 ^ k → ¬ 16 * K ≤ 7 * E → ∀ n, E ≤ n → n < 32 * 2 ^ k →
      subblock (32 * 2 ^ k) n ∈ frozenTmp K (32 * 2 ^ k) E := by
    intro hlt hshort n hn hnN
    rw [frozenTmp_eq, if_pos hlt, if_neg hshort]
    exact List.mem_map_of_mem (List.mem_range'_1.mpr (by omega))
  have hzero : ∀ n, subblock (32 * 2 ^ k) n ∈ frozenTmp K (32 * 2 ^ k) E →
      p.ibp (subblock (32 * 2 ^ k) n) = 0 := by
    intro n hn
    rw [hmarks _ (subblock_lt hg n), if_neg (hfree _ hn)]
  refine ⟨p, hp, ?_⟩
  constructor
  case marks =>
    intro n hn
    rw [hmarks n hn]
    split
    · exact Or.inr rfl
    · exact Or.inl rfl
  case count =>
    have hnodup : (reliable (q0Nminus1 (k + 5)) K (32 * 2 ^ k) E).Nodup :=
      ((hperm.nodup_iff.mpr List.nodup_range).filter _).sublist (List.drop_sublist _ _)
    have hmem := length_filter_mem hnodup fun q hq =>
      List.mem_range.mp (hperm.subset (mem_reliable hq).1)
    rw [← length_reliable hroom, ← hmem]
    refine congrArg List.length (List.filter_congr fun n hn => ?_)
    rw [hmarks n (List.mem_range.mp hn)]
    by_cases hrel : n ∈ reliable (q0Nminus1 (k + 5)) K (32 * 2 ^ k) E
    · simp [hrel]
    · simp [hrel]
  case punctured =>
    exact fun hlt hpunct n hn => hzero n (hpunctured hlt hpunct n hn)
  case shortened =>
    exact fun hlt hshort n hn hnN => hzero n (hshortened hlt hshort n hn hnN)
  case zero =>
    intro hlt hshort payload j hj hout
    obtain ⟨m, hm, rfl⟩ := subblock_surjective hg hj
    have hE : E ≤ m := by
      by_contra hmE
      refine hout m (not_le.mp hmE) ?_
      rw [nrPolarRateMatchingPattern, if_neg (Nat.not_le.mpr hlt), if_neg hshort]
    rw [hlog, shortened_zero hkron hshort (fun i hi => ?_) hE hm]
    · rfl
    · rw [nrPolarBitInsertion, if_neg]
      rw [mem_infoList hstarts (length_reliable hroom)]
      exact hfree i hi

/-- **The code is right** if its length is not rounded up. -/
theorem codeRight_iff {kroneckerPowerMatrices : ℕ → ℕ → ℕ → UInt8}
    (hkron : GivesKroneckerPowers kroneckerPowerMatrices) {K E nMax : ℕ} (hK : 18 ≤ K)
    (hKE : K ≤ E) (hmax : nMax = 9 ∨ nMax = 10) :
    CodeRight kroneckerPowerMatrices K E nMax ↔ ¬ RoundsUp K E nMax := by
  have hlength := outputLength_eq_iff nMax (by omega : 0 < K) hKE
  refine ⟨fun h => hlength.mp h.length, fun h => ⟨hlength.mpr h, fun hKN ibp qIN => ?_⟩⟩
  obtain ⟨n, h5, h10, hN, hpunct⟩ := outputLength_spec hK hKE (by omega : nMax ≤ 10)
  rw [hN] at hKN ⊢
  rw [Nat.log_pow (by decide)]
  exact pattern_right hkron h5 h10 hKN hKE hpunct ibp qIN

theorem codeRight_60_100 : 18 ≤ 60 ∧ 60 ≤ 100 ∧ CodeRight kroneckerPower 60 100 10 :=
  ⟨by decide, by decide, (codeRight_iff (fun _ _ _ _ _ => rfl) (by decide) (by decide)
    (Or.inr rfl)).mpr fun h => absurd h.2.2.1 (by
      rw [show Nat.clog 2 100 = 7 by norm_num]
      decide)⟩

/-- With 100 of 144 bits the length is 128, not 256. -/
theorem outputLength_100_144 : 18 ≤ 100 ∧ 100 ≤ 144 ∧ 144 ≤ 8192 ∧
    nrPolarOutputLength 100 144 10 = 128 ∧ standardOutputLength 100 144 10 = 256 ∧
    ¬ CodeRight kroneckerPower 100 144 10 := by
  have hE : Nat.clog 2 144 = 8 := by norm_num
  have hK : Nat.clog 2 (8 * 100) = 10 := by norm_num
  have hcode : nrPolarOutputLength 100 144 10 = 128 := by
    unfold nrPolarOutputLength
    rw [hE, hK]
    decide
  have hstandard : standardOutputLength 100 144 10 = 256 := by
    unfold standardOutputLength
    rw [hE, hK, if_neg fun h => absurd h.2 (by norm_num)]
    decide
  refine ⟨by decide, by decide, by decide, hcode, hstandard, fun h => ?_⟩
  exact absurd (hcode.symm.trans (h.length.trans hstandard)) (by decide)

end OaiCu.NrPolar
