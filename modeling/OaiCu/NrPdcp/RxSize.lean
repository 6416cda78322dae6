import Mathlib.Tactic.Ring
import OaiCu.NrPdcp.SetSecurity
import OaiCu.NrPdcp.Window

/-!
# `rx_size` and the SDUs of `rx_list`

A PDU is counted with its MAC-I when its SDU is stored, and the SDU without it when it is
delivered. The calls of an entity are taken together with those of `set_security` here, which may
come between any of them.
-/

namespace OaiCu.NrPdcp

open Machine

universe u

/-! ## An entity with its security -/

/-- The entity as `new_nr_pdcp_entity` allocates it. Its first call of `set_security` is the one
that `new_nr_pdcp_entity` makes. -/
structure SecuredEntity (ι κ : Type u) where
  security : SecurityState ι κ := {}
  entity : PdcpEntity := {}

inductive SecuredCall
  | entity (call : Call)
  | setSecurity (call : SetSecurity)

section

variable {ι κ : Type u} (cfg : PdcpConfig) (A : Algorithms ι κ)

/-- The entity as a machine that takes the calls of both kinds. -/
def securedStep (x : SecuredEntity ι κ) :
    SecuredCall → Except Fatal (SecuredEntity ι κ × List Output)
  | .entity call =>
      let (entity, out) := callEntity (cfg.secured A x.security) x.entity call
      .ok ({ x with entity }, out)
  | .setSecurity call => do
      let security ← setSecurity A x.security call
      return ({ x with security }, [])

/-- The bytes of the SDUs. -/
def heldBytes (rxList : List PdcpSdu) : ℕ := (rxList.map (·.buffer.length)).sum

/-- `rx_size` is what the SDUs of `rx_list` take. -/
def SizeRight (e : PdcpEntity) : Prop := e.rxSize = heldBytes e.rxList

instance (e : PdcpEntity) : Decidable (SizeRight e) := inferInstanceAs (Decidable (_ = _))

/-- It is after the call. -/
def SizeRightAfter (x : SecuredEntity ι κ) (call : SecuredCall) : Prop :=
  ∀ x' out, securedStep cfg A x call = .ok (x', out) → SizeRight x'.entity

/-- If the PDU is stored, it had no MAC-I: the bearer is a DRB and integrity is off. -/
def StoresNoMac (x : SecuredEntity ι κ) : SecuredCall → Prop
  | .entity (.recvPdu buffer) =>
      (storedSdu (cfg.secured A x.security) x.entity buffer).isSome →
        cfg.type ≠ .srb ∧ x.security.integrity.has = false
  | _ => True

end

/-! ## What is counted too much -/

/-- By how much `rx_size` is too large. -/
def surplus (e : PdcpEntity) : ℤ := e.rxSize - heldBytes e.rxList

theorem sizeRight_iff_surplus {e : PdcpEntity} : SizeRight e ↔ surplus e = 0 := by
  unfold SizeRight surplus
  exact sub_eq_zero.symm

theorem heldBytes_append (l l' : List PdcpSdu) :
    heldBytes (l ++ l') = heldBytes l + heldBytes l' := by
  unfold heldBytes
  rw [List.map_append, List.sum_append]

theorem heldBytes_sduListAdd (l : List PdcpSdu) (sdu : PdcpSdu) :
    heldBytes (sduListAdd l sdu) = sdu.buffer.length + heldBytes l := by
  unfold heldBytes
  exact ((List.perm_orderedInsert _ sdu l).map _).sum_nat

/-- Delivery takes off what it has taken out. -/
theorem surplus_deliverSdus (e : PdcpEntity) (count : ℕ) :
    surplus (deliverSdus e count).1 = surplus e := by
  have h := heldBytes_append (deliverFrom count e.rxList).2.2 (deliverFrom count e.rxList).2.1
  rw [deliverFrom_append] at h
  change e.rxSize - heldBytes (deliverFrom count e.rxList).2.2 -
    heldBytes (deliverFrom count e.rxList).2.1 = e.rxSize - heldBytes e.rxList
  rw [h]
  push_cast
  ring

theorem surplus_belowReord (e : PdcpEntity) : surplus (belowReord e) = surplus e := by
  have h := heldBytes_append (e.rxList.takeWhile (·.count < e.rxReord))
    (e.rxList.dropWhile (·.count < e.rxReord))
  rw [List.takeWhile_append_dropWhile] at h
  change e.rxSize - heldBytes (e.rxList.takeWhile (·.count < e.rxReord)) -
    heldBytes (e.rxList.dropWhile (·.count < e.rxReord)) = e.rxSize - heldBytes e.rxList
  rw [h]
  push_cast
  ring

theorem surplus_startReordering (e : PdcpEntity) : surplus (startReordering e) = surplus e := by
  unfold startReordering
  split
  · rfl
  · rfl

theorem surplus_stopReordering (e : PdcpEntity) : surplus (stopReordering e) = surplus e := by
  unfold stopReordering
  split
  · rfl
  · rfl

theorem surplus_withSdu (e : PdcpEntity) (sdu : PdcpSdu) (size : ℕ) :
    surplus (withSdu e sdu size) = surplus e + (size - sdu.buffer.length) := by
  change e.rxSize + size - heldBytes (sduListAdd e.rxList sdu) =
    e.rxSize - heldBytes e.rxList + (size - sdu.buffer.length)
  rw [heldBytes_sduListAdd]
  push_cast
  ring

theorem surplus_storeSdu (e : PdcpEntity) (sdu : PdcpSdu) (size : ℕ) :
    surplus (storeSdu e sdu size).1 = surplus e + (size - sdu.buffer.length) := by
  rw [storeSdu_eq]
  split
  · rw [surplus_startReordering, surplus_stopReordering, surplus_deliverSdus, surplus_withSdu]
  · rw [surplus_startReordering, surplus_stopReordering, surplus_withSdu]

/-- The SDU of a PDU is what is left without the header and the MAC-I. -/
theorem length_storedSdu {cfg : PdcpConfig} {e : PdcpEntity} {buffer : List UInt8} {sdu : PdcpSdu}
    (h : storedSdu cfg e buffer = some sdu) :
    sdu.buffer.length + cfg.integritySize = buffer.length - cfg.headerSize := by
  have hlong := (storedSdu_some h).1
  unfold LongEnough at hlong
  unfold storedSdu at h
  split at h
  · cases h
    rw [List.length_drop, List.length_take, length_plainPdu]
    omega
  · cases h

/-- The MAC-I of a PDU that is stored is counted, and never taken off. -/
theorem surplus_recvPdu (cfg : PdcpConfig) (e : PdcpEntity) (buffer : List UInt8) :
    surplus (recvPdu cfg e buffer).1 =
      surplus e + if (storedSdu cfg e buffer).isSome then (cfg.integritySize : ℤ) else 0 := by
  have hspec := recvPdu_spec cfg e buffer
  cases hst : storedSdu cfg e buffer with
  | none =>
      rw [hst] at hspec
      rw [hspec.1]
      exact (add_zero _).symm
  | some sdu =>
      rw [hst] at hspec
      rw [hspec.1, surplus_storeSdu, ← length_storedSdu hst]
      push_cast
      rw [add_sub_cancel_left]
      rfl

theorem surplus_setTime (cfg : PdcpConfig) (e : PdcpEntity) (now : UInt64) :
    surplus (setTime cfg e now).1 = surplus e := by
  unfold setTime
  by_cases hexp : Expired cfg { e with tCurrent := now.toNat }
  · rw [checkTReordering_of_expired hexp, surplus_startReordering]
    unfold atRestart
    rw [surplus_deliverSdus, surplus_belowReord]
    rfl
  · rw [checkTReordering_of_not_expired hexp]
    rfl

/-! ## Runs -/

section

variable {ι κ : Type u} {cfg : PdcpConfig} {A : Algorithms ι κ} {x : SecuredEntity ι κ}

theorem integritySize_secured : (cfg.secured A x.security).integritySize = 0 ↔
    cfg.type ≠ .srb ∧ x.security.integrity.has = false := by
  unfold PdcpConfig.integritySize PdcpConfig.secured
  cases x.security.integrity.has with
  | true => simp
  | false => simp

/-- A call leaves `rx_size` right exactly if it stores no MAC-I. -/
theorem sizeRightAfter_iff (h : SizeRight x.entity) (call : SecuredCall) :
    SizeRightAfter cfg A x call ↔ StoresNoMac cfg A x call := by
  rw [sizeRight_iff_surplus] at h
  cases call with
  | setSecurity call =>
      refine iff_of_true (fun x' out hs => ?_) trivial
      obtain ⟨security, -, hs⟩ := bind_ok hs
      cases hs
      exact sizeRight_iff_surplus.mpr h
  | entity call =>
      have hafter : SizeRightAfter cfg A x (.entity call) ↔
          surplus (callEntity (cfg.secured A x.security) x.entity call).1 = 0 := by
        rw [← sizeRight_iff_surplus]
        constructor
        · intro hright
          exact hright _ _ rfl
        · rintro hright x' out hs
          cases hs
          exact hright
      rw [hafter]
      cases call with
      | recvPdu buffer =>
          change surplus (recvPdu (cfg.secured A x.security) x.entity buffer).1 = 0 ↔ (_ → _)
          rw [surplus_recvPdu, h, zero_add, ← integritySize_secured]
          split
          · rename_i hst
            rw [Int.natCast_eq_zero]
            exact ⟨fun hzero _ => hzero, fun himp => himp hst⟩
          · rename_i hst
            exact iff_of_true rfl fun hst' => absurd hst' hst
      | recvSdu buffer sduId => exact iff_of_true h trivial
      | setTime now => exact iff_of_true ((surplus_setTime _ _ now).trans h) trivial

/-- In a run `rx_size` is right after every call exactly if no PDU with a MAC-I is stored. -/
theorem rxSize_right_iff (cfg : PdcpConfig) (A : Algorithms ι κ) (calls : List SecuredCall) :
    Along (securedStep cfg A) (SizeRightAfter cfg A) {} calls ↔
      Along (securedStep cfg A) (StoresNoMac cfg A) {} calls := by
  refine along_iff_along (fun x call h => sizeRightAfter_iff h call) ?_ (Eq.refl (0 : ℤ))
  intro x call x' out h hmac hs
  exact (sizeRightAfter_iff h call).mpr hmac x' out hs

end

/-- Integrity is on, and a PDU of one byte is received and delivered. -/
theorem rxSize_wrong :
    ¬ Along (securedStep (exampleCfg true) exampleAlgorithms)
      (SizeRightAfter (exampleCfg true) exampleAlgorithms) {}
      [.setSecurity securityOn, .entity (.recvPdu [0x80, 0, 1, 0, 0, 0, 0])] := by
  intro h
  have hright : SizeRight { rxNext := 1, rxDeliv := 1, rxSize := 4 } :=
    (h.2 _ _ rfl).1 _ _ rfl
  exact absurd hright (by decide)

end OaiCu.NrPdcp
