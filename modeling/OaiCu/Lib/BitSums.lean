import Mathlib.Algebra.BigOperators.Group.Finset.Basic
import Mathlib.Algebra.Ring.BooleanRing
import Mathlib.Data.List.GetD

/-!
# Words that are put together bit by bit

The bits of a word that a loop collects with `|||` or with `^^^`, and sums that go over the positions
at which a predicate holds. Sums of bits are sums in the ring `Bool`.
-/

namespace BitSums

open Finset

variable {ι : Type*} {w : ℕ}

theorem getLsbD_foldl_or (l : List ι) (f : ι → BitVec w) (acc : BitVec w) (b : ℕ) :
    (l.foldl (fun c i => c ||| f i) acc).getLsbD b =
      (acc.getLsbD b || l.any fun i => (f i).getLsbD b) := by
  induction l generalizing acc with
  | nil => simp
  | cons i l ih =>
      rw [List.foldl_cons, ih, BitVec.getLsbD_or, List.any_cons, Bool.or_assoc]

theorem getLsbD_foldl_xor (n : ℕ) (f : ℕ → BitVec w) (b : ℕ) :
    ((List.range n).foldl (fun c i => c ^^^ f i) 0#w).getLsbD b =
      ∑ i ∈ range n, (f i).getLsbD b := by
  induction n with
  | zero =>
      rw [List.range_zero, List.foldl_nil, sum_range_zero]
      exact BitVec.getLsbD_zero
  | succ n ih =>
      rw [List.range_succ, List.foldl_append, List.foldl_cons, List.foldl_nil, BitVec.getLsbD_xor,
        ih, sum_range_succ]
      rfl

/-! ## Ranks -/

/-- **A sum over the positions at which `p` holds**, where `f` is taken at the rank of the position:
it goes over the ranks. -/
theorem sum_rank {R : Type*} [NonAssocSemiring R] (p : ℕ → Bool) (f g : ℕ → R) (N : ℕ) :
    ∑ n ∈ range N, (if p n then f ((List.range n).countP p) else 0) * g n =
      ∑ k ∈ range ((List.range N).filter p).length,
        f k * g (((List.range N).filter p).getD k 0) := by
  induction N with
  | zero => rfl
  | succ N ih =>
      rw [sum_range_succ, ih, List.range_succ, List.filter_append]
      have hlow : ∑ k ∈ range ((List.range N).filter p).length,
            f k * g (((List.range N).filter p).getD k 0) =
          ∑ k ∈ range ((List.range N).filter p).length,
            f k * g (((List.range N).filter p ++ [N].filter p).getD k 0) := by
        refine sum_congr rfl fun k hk => ?_
        rw [List.getD_append _ _ _ _ (mem_range.mp hk)]
      rw [hlow]
      cases hp : p N with
      | false =>
          have hnil : [N].filter p = [] := by simp [hp]
          rw [hnil, List.append_nil]
          simp
      | true =>
          have hone : [N].filter p = [N] := by simp [hp]
          rw [hone, List.length_append, List.length_singleton, sum_range_succ,
            List.getD_append_right _ _ _ _ le_rfl, Nat.sub_self, List.countP_eq_length_filter]
          simp

/-- The last of the positions below `N` at which `p` holds. -/
theorem getD_filter_last {p : ℕ → Bool} {N m : ℕ} (hm : m < N) (hp : p m = true)
    (hlast : ∀ n < N, p n = true → n ≤ m) :
    ((List.range N).filter p).getD (((List.range N).filter p).length - 1) 0 = m := by
  have hsplit : List.range N = List.range m ++ m :: List.range' (m + 1) (N - m - 1) := by
    have hcons : m :: List.range' (m + 1) (N - m - 1) = List.range' m (N - m) := by
      rw [← List.range'_succ]
      congr 1
      omega
    have happ := @List.range'_append_1 0 m (N - m)
    rw [Nat.zero_add, Nat.add_sub_cancel' hm.le] at happ
    rw [hcons, List.range_eq_range', List.range_eq_range', happ]
  have hnone : (List.range' (m + 1) (N - m - 1)).filter p = [] := by
    refine List.filter_eq_nil_iff.mpr fun n hn hpn => ?_
    have hn := List.mem_range'_1.mp hn
    have := hlast n (by omega) hpn
    omega
  rw [hsplit, List.filter_append, List.filter_cons, if_pos hp, hnone]
  simp

end BitSums
