import Mathlib.Data.BitVec
import OaiCu.Lib.While
import OaiCu.Lib.Memory

/-!
# LDPC rate matching (`nr_rate_matching.c`)

The transmitter takes `E` bits from a circular buffer, with the filler bits left out, and interleaves
them. The receiver adds the `E` soft bits to the places that they were taken from.
-/

namespace OaiCu.NrLdpc

/-- NR_NULL. -/
def NR_NULL : BitVec 8 := 2

/-- index_k0. -/
def indexK0 : Fin 2 → Fin 4 → ℕ
  | 0 => [0, 17, 33, 56].get
  | 1 => [0, 13, 25, 43].get

/-- A sum or product of type uint32_t. -/
def wrap32 (x : ℕ) : ℕ := x % 2 ^ 32

/-- What both functions are called with: `BG` counts from 0. -/
structure RateMatching where
  Tbslbrm : ℕ
  BG : Fin 2
  Z : ℕ
  C : ℕ
  F : ℕ
  Foffset : ℕ
  rvidx : Fin 4
  E : ℕ
  deriving DecidableEq, Repr

namespace RateMatching

variable (x : RateMatching)

def N : ℕ := if x.BG = 0 then 66 * x.Z else 50 * x.Z

/-- The length of the circular buffer. -/
def Ncb : ℕ :=
  if x.Tbslbrm = 0 then x.N else min x.N (wrap32 (3 * x.Tbslbrm) / (2 * x.C))

/-- The start in the circular buffer. -/
def k0 : ℕ := indexK0 x.BG x.rvidx * x.Ncb / x.N * x.Z

/-- The calls that give -1. -/
def Refused : Prop := x.C = 0 ∨ x.E < x.Foffset ∨ x.Ncb < x.Foffset

instance : Decidable x.Refused := inferInstanceAs (Decidable (_ ∨ _))

/-! ## The transmitter -/

/-- memcpy(e + off, w + src, len). -/
def memcpy (e : ℕ → BitVec 8) (off : ℕ) (w : ℕ → BitVec 8) (src len : ℕ) : ℕ → BitVec 8 :=
  Memory.write e off (Memory.read w src len)

/-- The copies around the filler: e and k. -/
def txCopy (w e : ℕ → BitVec 8) : (ℕ → BitVec 8) × ℕ :=
  let ind := if x.Foffset ≤ x.k0 ∧ x.k0 < x.F + x.Foffset then x.F + x.Foffset else x.k0
  if ind < x.Foffset then
    let e := memcpy e 0 w ind (x.Foffset - ind)
    if wrap32 (x.E + x.F) ≤ x.Ncb - ind then
      (memcpy e (x.Foffset - ind) w (x.Foffset + x.F) (x.E - x.Foffset + ind), x.E)
    else
      (memcpy e (x.Foffset - ind) w (x.Foffset + x.F) (x.Ncb - x.Foffset - x.F), x.Ncb - x.F - ind)
  else if x.E ≤ x.Ncb - ind then (memcpy e 0 w ind x.E, x.E)
  else (memcpy e 0 w ind (x.Ncb - ind), x.Ncb - ind)

/-- e[k++] = w[ind]. -/
def put (w : ℕ → BitVec 8) (e : ℕ → BitVec 8) (k ind : ℕ) : ℕ → BitVec 8 :=
  Function.update e k (w ind)

/-- A pass of the repetitions: the places of the buffer that are not null. -/
def txBody (w : ℕ → BitVec 8) : (ℕ → BitVec 8) × ℕ → Option ((ℕ → BitVec 8) × ℕ) :=
  CyclicWalk.body (put w) x.E ((List.range x.Ncb).filter fun ind => w ind != NR_NULL)

/-- nr_rate_matching_ldpc: what it returns, and e. -/
inductive NrRateMatchingLdpc (w e : ℕ → BitVec 8) : ℤ → (ℕ → BitVec 8) → Prop
  | refused (h : x.Refused) : NrRateMatchingLdpc w e (-1) e
  | done (h : ¬ x.Refused) {e' : ℕ → BitVec 8} {k : ℕ}
      (hends : While.Ends (x.txBody w) (x.txCopy w e) (e', k)) : NrRateMatchingLdpc w e 0 e'

/-! ## The receiver -/

/-- w[ind] += soft_input[k++]. -/
def add (softInput : ℕ → BitVec 16) (w : ℕ → BitVec 16) (k ind : ℕ) : ℕ → BitVec 16 :=
  Function.update w ind (w ind + softInput k)

/-- for (ind = start; (ind < stop) && (k < E); ind++). -/
def rxFor (softInput : ℕ → BitVec 16) (start stop : ℕ) :
    (ℕ → BitVec 16) × ℕ → (ℕ → BitVec 16) × ℕ :=
  CyclicWalk.pass (add softInput) x.E (List.range' start (stop - start))

/-- The first passage, from the start on. -/
def rxFirst (softInput w : ℕ → BitVec 16) : (ℕ → BitVec 16) × ℕ :=
  let s :=
    if x.k0 < x.Foffset then x.rxFor softInput x.k0 x.Foffset (w, 0) else (w, 0)
  -- where the first loop is left; with fewer soft bits than places k is E then
  let ind := if x.k0 < x.Foffset then min x.Foffset (x.k0 + x.E) else x.k0
  let ind := if x.Foffset ≤ ind ∧ ind < x.Foffset + x.F then x.Foffset + x.F else ind
  x.rxFor softInput ind x.Ncb s

/-- A pass of the repetitions. -/
def rxBody (softInput : ℕ → BitVec 16) (s : (ℕ → BitVec 16) × ℕ) :
    Option ((ℕ → BitVec 16) × ℕ) :=
  if s.2 < x.E then
    some (x.rxFor softInput (x.Foffset + x.F) x.Ncb (x.rxFor softInput 0 x.Foffset s))
  else none

/-- memset(w, 0, Ncb * sizeof(int16_t)), if asked for. -/
def cleared (clear : Bool) (w : ℕ → BitVec 16) : ℕ → BitVec 16 := fun i =>
  if clear ∧ i < x.Ncb then 0 else w i

/-- nr_rate_matching_ldpc_rx: what it returns, and w. -/
inductive NrRateMatchingLdpcRx (softInput : ℕ → BitVec 16) (clear : Bool) (w : ℕ → BitVec 16) :
    ℤ → (ℕ → BitVec 16) → Prop
  | refused (h : x.Refused) : NrRateMatchingLdpcRx softInput clear w (-1) w
  | done (h : ¬ x.Refused) {w' : ℕ → BitVec 16} {k : ℕ}
      (hends : While.Ends (x.rxBody softInput) (x.rxFirst softInput (x.cleared clear w)) (w', k)) :
      NrRateMatchingLdpcRx softInput clear w 0 w'

end RateMatching

/-! ## The interleaver -/

/-- nr_interleaving_ldpc. It is not defined for other modulation orders. -/
def nrInterleavingLdpc (E Qm : ℕ) (e f : ℕ → BitVec 8) : Option (ℕ → BitVec 8) :=
  if Qm ∈ [2, 4, 6, 8] then
    let EQm := E / Qm
    some (Memory.scatter (fun i => if i < E then 0 else f i)
      ((List.range EQm).flatMap fun j => (List.range Qm).map fun i => (j * Qm + i, e (i * EQm + j))))
  else none

/-- nr_deinterleaving_ldpc. It is not defined for other modulation orders and if the length is not a
multiple of the order. -/
def nrDeinterleavingLdpc (E Qm : ℕ) (e f : ℕ → BitVec 16) : Option (ℕ → BitVec 16) :=
  if Qm ∈ [2, 4, 6, 8] ∧ E % Qm = 0 then
    some (Memory.scatter e
      ((List.range (E / Qm)).flatMap fun j =>
        (List.range Qm).map fun i => (i * (E / Qm) + j, f (j * Qm + i))))
  else none

section

variable {E Qm : ℕ}

/-- A number of a row and a column is known from them. -/
theorem row_column {c i j i' j' : ℕ} (hj : j < c) (hj' : j' < c) (h : i * c + j = i' * c + j') :
    i = i' ∧ j = j' := by
  have hc : 0 < c := by omega
  constructor
  · have hdiv := congrArg (· / c) h
    simpa [Nat.mul_comm _ c, Nat.mul_add_div hc, Nat.div_eq_of_lt, hj, hj'] using hdiv
  · have hmod := congrArg (· % c) h
    simpa [Nat.mul_comm _ c, Nat.mul_add_mod, Nat.mod_eq_of_lt, hj, hj'] using hmod

theorem nrInterleavingLdpc_apply {e f f' : ℕ → BitVec 8}
    (h : nrInterleavingLdpc E Qm e f = some f') {i j : ℕ} (hi : i < Qm) (hj : j < E / Qm) :
    f' (j * Qm + i) = e (i * (E / Qm) + j) := by
  unfold nrInterleavingLdpc at h
  split_ifs at h
  obtain rfl := Option.some.inj h
  refine Memory.scatter_of_mem (List.mem_flatMap.mpr
    ⟨j, List.mem_range.mpr hj, List.mem_map.mpr ⟨i, List.mem_range.mpr hi, rfl⟩⟩) fun p hp heq => ?_
  obtain ⟨j', -, hp⟩ := List.mem_flatMap.mp hp
  obtain ⟨i', hi', rfl⟩ := List.mem_map.mp hp
  obtain ⟨rfl, rfl⟩ := row_column (List.mem_range.mp hi') hi heq
  rfl

theorem nrDeinterleavingLdpc_apply {e f e' : ℕ → BitVec 16}
    (h : nrDeinterleavingLdpc E Qm e f = some e') {i j : ℕ} (hi : i < Qm) (hj : j < E / Qm) :
    e' (i * (E / Qm) + j) = f (j * Qm + i) := by
  unfold nrDeinterleavingLdpc at h
  split_ifs at h
  obtain rfl := Option.some.inj h
  refine Memory.scatter_of_mem (List.mem_flatMap.mpr
    ⟨j, List.mem_range.mpr hj, List.mem_map.mpr ⟨i, List.mem_range.mpr hi, rfl⟩⟩) fun p hp heq => ?_
  obtain ⟨j', hj', hp⟩ := List.mem_flatMap.mp hp
  obtain ⟨i', -, rfl⟩ := List.mem_map.mp hp
  obtain ⟨rfl, rfl⟩ := row_column (List.mem_range.mp hj') hj heq
  rfl

/-- The deinterleaver inverts the interleaver. -/
theorem deinterleaving_interleaving (hQm : Qm ∈ [2, 4, 6, 8]) (hdvd : Qm ∣ E)
    (e f : ℕ → BitVec 8) (d : ℕ → BitVec 16) :
    ∃ f' d', nrInterleavingLdpc E Qm e f = some f' ∧
      nrDeinterleavingLdpc E Qm d (fun i => (f' i).setWidth 16) = some d' ∧
      ∀ k < E, d' k = (e k).setWidth 16 := by
  obtain ⟨f', hf'⟩ : ∃ f', nrInterleavingLdpc E Qm e f = some f' := ⟨_, if_pos hQm⟩
  obtain ⟨d', hd'⟩ : ∃ d', nrDeinterleavingLdpc E Qm d (fun i => (f' i).setWidth 16) = some d' :=
    ⟨_, if_pos ⟨hQm, Nat.mod_eq_zero_of_dvd hdvd⟩⟩
  refine ⟨f', d', hf', hd', fun k hk => ?_⟩
  have hmul : E = Qm * (E / Qm) := (Nat.mul_div_cancel' hdvd).symm
  have hc : 0 < E / Qm := Nat.pos_of_ne_zero fun h0 => by
    rw [h0] at hmul
    omega
  have hi : k / (E / Qm) < Qm := (Nat.div_lt_iff_lt_mul hc).mpr (hmul ▸ hk)
  have hj : k % (E / Qm) < E / Qm := Nat.mod_lt _ hc
  have hk' : k / (E / Qm) * (E / Qm) + k % (E / Qm) = k := Nat.div_add_mod' k _
  have happly := nrDeinterleavingLdpc_apply hd' hi hj
  rw [nrInterleavingLdpc_apply hf' hi hj, hk'] at happly
  exact happly

end

end OaiCu.NrLdpc
