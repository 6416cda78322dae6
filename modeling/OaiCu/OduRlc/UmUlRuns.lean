import OaiCu.OduRlc.UmUlCycle

/-!
# Runs of the UM uplink

The upper edge of the window is also counted without the modulus. A segment that comes in is
marked with its SN counted in the same way, so that an SDU that mixes two cycles of the SNs
carries different marks.
-/

namespace OaiCu.OduRlc

variable {snLen : UmSnLen} {β : Type*}

/-- The entity, with `vrUh` also counted without the modulus. -/
structure UmUlRun (snLen : UmSnLen) (β : Type*) where
  umUl : RlcUmUl snLen (β × ℕ) := {}
  vrUhCount : ℕ := snLen.modulus

namespace UmUlRun

/-- The SN as it is meant now, counted without the modulus. -/
def snCount (r : UmUlRun snLen β) (sn : ℕ) : ℕ :=
  r.vrUhCount + r.umUl.getValue sn - snLen.umWinSz

def mark (r : UmUlRun snLen β) : UmUlOp snLen β → UmUlOp snLen (β × ℕ)
  | .pdu (.complete sdu) => .pdu (.complete (sdu, 0))
  | .pdu (.segment umHdr pduSz mBuf) =>
    .pdu (.segment umHdr pduSz (mBuf, r.snCount umHdr.sn))
  | .reAsmblTmrExp => .reAsmblTmrExp

def step (r : UmUlRun snLen β) (op : UmUlOp snLen β) :
    Except Unit (UmUlRun snLen β × List (List (β × ℕ))) :=
  match (r.mark op).step r.umUl with
  | none => .error ()
  | some (umUl, sdus) => .ok
    ({ umUl := umUl
       vrUhCount := r.vrUhCount + (umUl.vrUh + snLen.modulus - r.umUl.vrUh) % snLen.modulus },
      sdus)

/-- All segments of the SDU were received in one cycle of the SNs. -/
def OneCycle (sdu : List (β × ℕ)) : Prop := ∀ a ∈ sdu, ∀ b ∈ sdu, a.2 = b.2

/-- The window stays right in the run: every scan ends and comes to where it should, and no SDU
mixes two cycles of the SNs. -/
def WindowIntegrity (snLen : UmSnLen) (ops : List (UmUlOp snLen β)) : Prop :=
  ∀ pre op, pre ++ [op] <+: ops → ∃ r outs r' sdus,
    Machine.run step {} pre = .ok (r, outs) ∧ step r op = .ok (r', sdus) ∧
      (r.mark op).StepRight r.umUl r'.umUl ∧ ∀ sdu ∈ sdus, OneCycle sdu

def StepOk (r : UmUlRun snLen β) (op : UmUlOp snLen β) : Prop := (r.mark op).StepOk r.umUl

/-- The mark of a segment of the SN. -/
def Marked (r : UmUlRun snLen β) (sn : ℕ) (a : β × ℕ) : Prop :=
  a.2 + snLen.umWinSz = r.vrUhCount + r.umUl.getValue sn

structure Inv (r : UmUlRun snLen β) : Prop where
  window : r.umUl.WindowOk
  joined : r.umUl.Joined r.Marked
  umWinSz_le : snLen.umWinSz ≤ r.vrUhCount

theorem inv_start : ({} : UmUlRun snLen β).Inv where
  window := ⟨Nat.zero_le _, Nat.zero_le _, Nat.zero_le _, nofun⟩
  joined := ⟨rfl, rfl, nofun⟩
  umWinSz_le := by
    have := snLen.umWinSz_cases
    simp only
    omega

/-- The marks move with the window. -/
theorem marked_of_moves {r : UmUlRun snLen β} (hUh : r.umUl.vrUh < snLen.modulus)
    {umUl : RlcUmUl snLen (β × ℕ)} (hmoves : r.umUl.VrUhMoves umUl) {sn : ℕ}
    (hsn : sn < snLen.modulus) (hin : umUl.getValue sn < snLen.umWinSz) {a : β × ℕ}
    (h : r.Marked sn a) : Marked { umUl := umUl, vrUhCount := r.vrUhCount +
      (umUl.vrUh + snLen.modulus - r.umUl.vrUh) % snLen.modulus } sn a := by
  have hw := snLen.umWinSz_cases
  rw [Marked] at h ⊢
  simp only
  rcases hmoves with he | ⟨sn', hsn', hout, he⟩
  · have hget : umUl.getValue sn = r.umUl.getValue sn := by
      rw [RlcUmUl.getValue, RlcUmUl.getValue, he]
    have hzero : (umUl.vrUh + snLen.modulus - r.umUl.vrUh) % snLen.modulus = 0 := by
      rw [he, Nat.add_sub_cancel_left, Nat.mod_self]
    rw [hget, hzero]
    exact h
  · have hmove := RlcUmUl.getValue_move hUh hsn' hout hsn he
    have hshift : (umUl.vrUh + snLen.modulus - r.umUl.vrUh) % snLen.modulus + snLen.umWinSz =
        r.umUl.getValue sn' + 1 := by
      rw [RlcUmUl.getValue_eq hUh (by omega)] at hout ⊢
      rw [he, UmSnLen.and_modBitMask]
      rcases hw with ⟨h1, h2⟩ | ⟨h1, h2⟩ <;> simp only [h1, h2] at hUh hsn' hout ⊢ <;> omega
    have hlt := r.umUl.getValue_lt sn'
    split_ifs at hmove <;> omega

theorem Inv.step {r : UmUlRun snLen β} (h : r.Inv) {op : UmUlOp snLen β} (hop : r.StepOk op) :
    ∃ r' sdus, r.step op = .ok (r', sdus) ∧ r'.Inv ∧ (r.mark op).StepRight r.umUl r'.umUl ∧
      ∀ sdu ∈ sdus, OneCycle sdu := by
  have hP : ∀ umHdr pduSz mBuf, r.mark op = .pdu (.segment umHdr pduSz mBuf) →
      r.Marked umHdr.sn mBuf := by
    have hle := h.umWinSz_le
    intro umHdr pduSz mBuf hop'
    rcases op with (_ | _) | _ <;> cases hop'
    rw [Marked, snCount]
    omega
  obtain ⟨umUl', sdus, hstep, hright, hj, hmoves, hsdus⟩ :=
    UmUlOp.step_spec h.window h.joined hop hP
  refine ⟨_, sdus, by rw [UmUlRun.step, hstep], ⟨hright.window, ?_, ?_⟩, hright,
    fun sdu hm => ?_⟩
  · refine ⟨hj.missing, hj.assembleSdu, fun sn recBuf hr => ?_⟩
    obtain ⟨hsegs, hdone⟩ := hj.segs sn recBuf hr
    refine ⟨?_, hdone⟩
    by_cases hall : recBuf.allRcvd = true
    · rw [hdone hall]
      exact segsOk_nil
    · obtain ⟨h1, -, h3⟩ := hright.window.recBuf sn recBuf hr
      have hin := h3.resolve_right fun hc => hall hc.1
      rw [RlcUmUl.getValue_vrUh hright.window.vrUh_lt] at hin
      exact hsegs.imp fun a => marked_of_moves h.window.vrUh_lt hmoves
        (RlcUmUl.le_modBitMask_iff.1 h1) hin
  · exact h.umWinSz_le.trans (Nat.le_add_right _ _)
  · rcases hsdus sdu hm with ⟨a, rfl⟩ | ⟨sn, hall⟩
    · intro a ha b hb
      rw [List.mem_singleton.1 ha, List.mem_singleton.1 hb]
    · intro a ha b hb
      have ha' := hall a ha
      have hb' := hall b hb
      rw [Marked] at ha' hb'
      omega

instance (r : UmUlRun snLen β) (op : UmUlOp snLen β) : Decidable (r.StepOk op) :=
  inferInstanceAs (Decidable ((r.mark op).StepOk r.umUl))

/-- A first segment starts at offset 0. -/
theorem so_first_zero : Si.first = .first → 0 = 0 := fun _ => rfl

/-- PDUs with the first and the last ten bytes of an SDU. -/
def firstPdu (sn : ℕ) (h : sn ≤ UmSnLen.bits6.modBitMask) : UmUlOp .bits6 Unit :=
  .pdu (.segment ⟨.first, sn, 0, h, so_first_zero⟩ 10 ())

def lastPdu (sn : ℕ) (h : sn ≤ UmSnLen.bits6.modBitMask) : UmUlOp .bits6 Unit :=
  .pdu (.segment ⟨.last, sn, 10, h, nofun⟩ 10 ())

/-- The SDUs that are passed up in a run. -/
def sdus (ops : List (UmUlOp .bits6 Unit)) : List (List (Unit × ℕ)) :=
  match Machine.run UmUlRun.step {} ops with
  | .ok (_, outs) => outs
  | .error _ => []

/-- The last segments of SN 31, 62 and 0 are lost, and the timer expires. -/
def wrapOps : List (UmUlOp .bits6 Unit) :=
  [firstPdu 31 (by decide), firstPdu 62 (by decide), firstPdu 0 (by decide), .reAsmblTmrExp,
    firstPdu 32 (by decide), firstPdu 63 (by decide)]

end UmUlRun

end OaiCu.OduRlc
