import OaiCu.OduSch.PrbRuns
import OaiCu.Lib.While

/-!
# The lookup of a free block (`sch_utils.c`)

The loop of `isPrbAvailable` as it is written. It looks at a block that is too small again and
again, so it comes to its end only if no such block stands in front of the one it looks for.
-/

namespace OaiCu.OduSch

open While

/-- All of the PRBs are in the block. -/
def FreePrbBlock.Holds (freeBlock : FreePrbBlock) (startPrb numPrb : ℕ) : Prop :=
  ∀ prb, startPrb ≤ prb → prb < startPrb + numPrb → freeBlock.has prb = true

/-- One pass of the loop of `isPrbAvailable`, from the blocks at and behind `node` to those of the
next pass. The loop is left at the end of the list and at the block that is returned. -/
def isPrbAvailablePass (startPrb numPrb : ℕ) : List FreePrbBlock → Option (List FreePrbBlock)
  | [] => none
  | freeBlock :: rest =>
    let endPrb := (startPrb + numPrb + 2 ^ 16 - 1) % 2 ^ 16
    if freeBlock.numFreePrb < numPrb then some (freeBlock :: rest)
    else if freeBlock.has startPrb && freeBlock.has endPrb then none
    else some rest

/-- The node that a search returns; an endless one returns none. -/
def BlockSearch.node : BlockSearch → Option (List FreePrbBlock)
  | .found _ freePrbBlock rest => some (freePrbBlock :: rest)
  | .unavailable => some []
  | .loops => none

@[simp] theorem BlockSearch.node_skip (search : BlockSearch) (freeBlock : FreePrbBlock) :
    (search.skip freeBlock).node = search.node := by
  cases search <;> rfl

/-- A node is returned exactly if one block has all of the PRBs, and then it is that block's. -/
structure LookupRight (startPrb numPrb : ℕ) (freePrbBlockList node : List FreePrbBlock) : Prop where
  returns : node ≠ [] ↔ ∃ b ∈ freePrbBlockList, b.Holds startPrb numPrb
  isNode : ∃ front, freePrbBlockList = front ++ node
  holds : ∀ b rest, node = b :: rest → b.Holds startPrb numPrb

/-- No block is too small up to the first one that has all of the PRBs. -/
def NoneTooSmall (startPrb numPrb : ℕ) (freePrbBlockList : List FreePrbBlock) : Prop :=
  ∀ front b rest, freePrbBlockList = front ++ b :: rest →
    (∀ c ∈ front, ¬ c.Holds startPrb numPrb) → numPrb ≤ b.numFreePrb

section

variable {startPrb numPrb : ℕ} {freePrbBlockList node rest : List FreePrbBlock}
  {freeBlock : FreePrbBlock}

theorem FreePrbBlock.holds_iff (hpos : 1 ≤ numPrb) : freeBlock.Holds startPrb numPrb ↔
    freeBlock.has startPrb = true ∧ freeBlock.has (startPrb + numPrb - 1) = true := by
  simp only [Holds, has_iff]
  constructor
  · intro h
    exact ⟨h startPrb le_rfl (by omega), h (startPrb + numPrb - 1) (by omega) (by omega)⟩
  · rintro ⟨⟨h1, -⟩, -, h2⟩ prb hge hlt
    exact ⟨h1.trans hge, (Nat.le_sub_one_of_lt hlt).trans h2⟩

/-- What a pass does at a block. -/
theorem isPrbAvailablePass_cons (hpos : 1 ≤ numPrb) (hle : startPrb + numPrb ≤ 65535) :
    isPrbAvailablePass startPrb numPrb (freeBlock :: rest) =
      if freeBlock.numFreePrb < numPrb then some (freeBlock :: rest)
      else if freeBlock.has startPrb && freeBlock.has (startPrb + numPrb - 1) then none
      else some rest := by
  have hend : (startPrb + numPrb + 2 ^ 16 - 1) % 2 ^ 16 = startPrb + numPrb - 1 := by
    rw [Nat.sub_add_comm (by omega), Nat.add_mod_right]
    exact Nat.mod_eq_of_lt (by omega)
  rw [isPrbAvailablePass, hend]

/-- The loop is left where the search `isPrbAvailable` comes to its end, with the same node. -/
theorem ends_iff_node (hpos : 1 ≤ numPrb) (hle : startPrb + numPrb ≤ 65535) :
    Ends (isPrbAvailablePass startPrb numPrb) freePrbBlockList node ↔
      (isPrbAvailable startPrb numPrb freePrbBlockList).node = some node := by
  induction freePrbBlockList with
  | nil =>
      rw [ends_iff_of_none rfl]
      exact ⟨fun h => congrArg some h.symm, fun h => (Option.some.inj h).symm⟩
  | cons freeBlock rest ih =>
      have hpass := @isPrbAvailablePass_cons _ _ rest freeBlock hpos hle
      rw [isPrbAvailable]
      split_ifs at hpass ⊢ with hsmall hhas
      · exact iff_of_false (not_ends_of_stuck hpass) fun h => by cases h
      · rw [ends_iff_of_none hpass]
        exact ⟨fun h => congrArg some h.symm, fun h => (Option.some.inj h).symm⟩
      · rw [ends_iff_of_some hpass, ih, BlockSearch.node_skip]

theorem noneTooSmall_cons : NoneTooSmall startPrb numPrb (freeBlock :: rest) ↔
    numPrb ≤ freeBlock.numFreePrb ∧
      (¬ freeBlock.Holds startPrb numPrb → NoneTooSmall startPrb numPrb rest) := by
  constructor
  · intro h
    refine ⟨h [] freeBlock rest rfl nofun, fun hnot front b rest' heq hfront => ?_⟩
    apply h (freeBlock :: front) b rest' (by rw [heq, List.cons_append])
    intro c hc
    rcases List.mem_cons.mp hc with rfl | hc
    · exact hnot
    · exact hfront c hc
  · rintro ⟨h1, h2⟩ front b rest' heq hfront
    cases front with
    | nil =>
        cases heq
        exact h1
    | cons c front =>
        cases heq
        exact h2 (hfront _ List.mem_cons_self) front b rest' rfl
          fun c hc => hfront c (List.mem_cons_of_mem _ hc)

/-- Where the loop comes to its end, it has found the block. -/
theorem lookupRight_of_ends (hpos : 1 ≤ numPrb) (hle : startPrb + numPrb ≤ 65535)
    (h : Ends (isPrbAvailablePass startPrb numPrb) freePrbBlockList node) :
    LookupRight startPrb numPrb freePrbBlockList node := by
  induction freePrbBlockList with
  | nil =>
      obtain rfl := (ends_iff_of_none rfl).mp h
      exact ⟨by simp, ⟨[], rfl⟩, nofun⟩
  | cons freeBlock rest ih =>
      have hpass := @isPrbAvailablePass_cons _ _ rest freeBlock hpos hle
      split_ifs at hpass with hsmall hhas
      · exact absurd h (not_ends_of_stuck hpass)
      · obtain rfl := (ends_iff_of_none hpass).mp h
        rw [Bool.and_eq_true, ← FreePrbBlock.holds_iff hpos] at hhas
        refine ⟨by simp [hhas], ⟨[], rfl⟩, fun b _ heq => ?_⟩
        cases heq
        exact hhas
      · rw [Bool.and_eq_true, ← FreePrbBlock.holds_iff hpos] at hhas
        obtain ⟨hreturns, ⟨front, hfront⟩, hholds⟩ := ih ((ends_iff_of_some hpass).mp h)
        exact ⟨by simp [hreturns, hhas], ⟨freeBlock :: front, by rw [hfront, List.cons_append]⟩,
          hholds⟩

/-- The loop comes to its end exactly if no block in the way is too small. -/
theorem ends_iff_noneTooSmall (hpos : 1 ≤ numPrb) (hle : startPrb + numPrb ≤ 65535) :
    (∃ node, Ends (isPrbAvailablePass startPrb numPrb) freePrbBlockList node) ↔
      NoneTooSmall startPrb numPrb freePrbBlockList := by
  induction freePrbBlockList with
  | nil => exact ⟨fun _ front b rest' heq => absurd heq (by simp), fun _ => ⟨[], .left rfl⟩⟩
  | cons freeBlock rest ih =>
      have hpass := @isPrbAvailablePass_cons _ _ rest freeBlock hpos hle
      rw [noneTooSmall_cons]
      split_ifs at hpass with hsmall hhas
      · exact ⟨fun ⟨_, h⟩ => absurd h (not_ends_of_stuck hpass), fun h => by omega⟩
      · rw [Bool.and_eq_true, ← FreePrbBlock.holds_iff hpos] at hhas
        exact ⟨fun _ => ⟨not_lt.mp hsmall, absurd hhas⟩, fun _ => ⟨_, .left hpass⟩⟩
      · rw [Bool.and_eq_true, ← FreePrbBlock.holds_iff hpos] at hhas
        simp only [ends_iff_of_some hpass, ih]
        exact ⟨fun h => ⟨not_lt.mp hsmall, fun _ => h⟩, fun h => h.2 hhas⟩

/-- The lookup returns the right node exactly if no block is too small up to the one that has the
PRBs. Otherwise it never returns. -/
theorem isPrbAvailable_right_iff (hpos : 1 ≤ numPrb) (hle : startPrb + numPrb ≤ 65535) :
    (∃ node, Ends (isPrbAvailablePass startPrb numPrb) freePrbBlockList node ∧
        LookupRight startPrb numPrb freePrbBlockList node) ↔
      NoneTooSmall startPrb numPrb freePrbBlockList := by
  rw [← ends_iff_noneTooSmall hpos hle]
  exact ⟨fun ⟨node, h, _⟩ => ⟨node, h⟩,
    fun ⟨node, h⟩ => ⟨node, h, lookupRight_of_ends hpos hle h⟩⟩

end

/-- A block of ten PRBs stands in front of the one that has the two PRBs. -/
theorem isPrbAvailable_second : ∃ node,
    Ends (isPrbAvailablePass 4 2) [⟨10, 40, 49⟩, ⟨8, 0, 7⟩] node ∧
      LookupRight 4 2 [⟨10, 40, 49⟩, ⟨8, 0, 7⟩] node := by
  refine (isPrbAvailable_right_iff (by decide) (by decide)).mpr ?_
  rw [noneTooSmall_cons, noneTooSmall_cons]
  exact ⟨by decide, fun _ => ⟨by decide, fun _ front b rest heq _ => absurd heq (by simp)⟩⟩

/-- A block with the PRB 20 alone stands in front of the one that has the two PRBs. -/
theorem isPrbAvailable_loops :
    ¬ ∃ node, Ends (isPrbAvailablePass 4 2) [⟨1, 20, 20⟩, ⟨8, 0, 7⟩] node ∧
      LookupRight 4 2 [⟨1, 20, 20⟩, ⟨8, 0, 7⟩] node :=
  fun ⟨_, h, _⟩ => absurd h (not_ends_of_stuck rfl)

end OaiCu.OduSch
