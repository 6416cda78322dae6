import Mathlib.Tactic.IntervalCases
import OaiCu.NrPdcp.Reordering

/-!
# COUNT and the receive window of PDCP

The receiver completes the SN of a PDU to a COUNT with the HFN of `rx_deliv`, or the next
or the previous one. The previous one of HFN 0 is the largest of all.
-/

namespace OaiCu.NrPdcp

open Machine

/-! ## COUNT from the SN -/

section Count

variable (cfg : PdcpConfig)

theorem rcvdSn_lt (buffer : List UInt8) : rcvdSn cfg buffer < 2 ^ cfg.snSize := by
  have hbyte : ∀ i, (buffer.getD i 0).toNat < 2 ^ 8 := fun i => UInt8.toNat_lt _
  rcases cfg.snSize_eq with h | h
  · rw [rcvdSn, if_pos h, h]
    refine Nat.or_lt_two_pow ?_ ((hbyte 1).trans (by decide))
    have : (buffer.getD 0 0).toNat &&& 0xf ≤ 15 := Nat.and_le_right
    simp only [Nat.shiftLeft_eq]
    omega
  · rw [rcvdSn, if_neg (by omega), h]
    have h1 := hbyte 1
    have h2 : (buffer.getD 0 0).toNat &&& 0x3 ≤ 3 := Nat.and_le_right
    refine Nat.or_lt_two_pow (Nat.or_lt_two_pow ?_ ?_) ((hbyte 2).trans (by decide))
    · simp only [Nat.shiftLeft_eq]
      omega
    · simp only [Nat.shiftLeft_eq]
      omega

theorem windowSize_eq : cfg.windowSize + cfg.windowSize = 2 ^ cfg.snSize := by
  rcases cfg.snSize_eq with h | h <;> simp [PdcpConfig.windowSize, h]

/-- The COUNT with HFN `hfn`, cut to 32 bits. -/
theorem count_eq {hfn sn : ℕ} (hsn : sn < 2 ^ cfg.snSize) :
    (hfn <<< cfg.snSize) % 2 ^ 32 ||| sn = (hfn * 2 ^ cfg.snSize) % 2 ^ 32 + sn := by
  have hsplit : (2 : ℕ) ^ 32 = 2 ^ (32 - cfg.snSize) * 2 ^ cfg.snSize := by
    rw [← pow_add]
    congr 1
    rcases cfg.snSize_eq with h | h <;> omega
  rw [Nat.shiftLeft_eq, hsplit, Nat.mul_mod_mul_right, ← Nat.shiftLeft_eq,
    Nat.shiftLeft_add_eq_or_of_lt hsn]

/-- The COUNT of a received SN: inside the window, old, or, before the first HFN is over,
at the end of the COUNT space. -/
theorem rcvdCount_cases {rxDeliv sn : ℕ} (hD : rxDeliv < 2 ^ 32) (hsn : sn < 2 ^ cfg.snSize) :
    rcvdCount cfg rxDeliv sn % 2 ^ cfg.snSize = sn ∧ rcvdCount cfg rxDeliv sn < 2 ^ 32 ∧
      if rxDeliv < 2 ^ cfg.snSize ∧ rxDeliv + cfg.windowSize ≤ sn then
        rcvdCount cfg rxDeliv sn = 2 ^ 32 - 2 ^ cfg.snSize + sn
      else rcvdCount cfg rxDeliv sn < rxDeliv + cfg.windowSize := by
  rw [rcvdCount, count_eq cfg hsn, rcvdHfn, PdcpConfig.snMax, Nat.and_two_pow_sub_one_eq_mod,
    Nat.shiftRight_eq_div_pow]
  have hw : cfg.windowSize = 2 ^ (cfg.snSize - 1) := rfl
  rcases cfg.snSize_eq with h | h
  all_goals
    rw [h] at hw hsn ⊢
    simp only [hw]
    refine ⟨?_, ?_, ?_⟩ <;> split_ifs <;> omega

/-- A COUNT in the window around `rx_deliv` is recovered from its SN. -/
theorem rcvdCount_of_window {rxDeliv count : ℕ} (hD : rxDeliv < 2 ^ 32) (hc : count < 2 ^ 32)
    (hlo : rxDeliv ≤ count + cfg.windowSize) (hhi : count < rxDeliv + cfg.windowSize) :
    rcvdCount cfg rxDeliv (count % 2 ^ cfg.snSize) = count := by
  have hw : cfg.windowSize = 2 ^ (cfg.snSize - 1) := rfl
  rw [rcvdCount, count_eq cfg (Nat.mod_lt _ (by positivity)), rcvdHfn, PdcpConfig.snMax,
    Nat.and_two_pow_sub_one_eq_mod, Nat.shiftRight_eq_div_pow]
  rcases cfg.snSize_eq with h | h
  all_goals
    rw [h] at hw ⊢
    simp only [hw] at hlo hhi ⊢
    split_ifs <;> omega

end Count

/-! ## What a PDU stores -/

/-- The PDU has a header, a MAC-I if there is one, and data. -/
def LongEnough (cfg : PdcpConfig) (buffer : List UInt8) : Prop :=
  cfg.headerSize + cfg.integritySize + 1 ≤ buffer.length

instance (cfg : PdcpConfig) (buffer : List UInt8) : Decidable (LongEnough cfg buffer) :=
  inferInstanceAs (Decidable (_ ≤ _))

/-- The SN of a PDU as received. -/
def pduSn (cfg : PdcpConfig) (buffer : List UInt8) : ℕ :=
  rcvdSn cfg (setDataBit cfg buffer).1

/-- The COUNT that the receiver gives the PDU. -/
def pduCount (cfg : PdcpConfig) (e : PdcpEntity) (buffer : List UInt8) : ℕ :=
  rcvdCount cfg e.rxDeliv (pduSn cfg buffer)

/-- The PDU as the receiver deciphers it. -/
def plainPdu (cfg : PdcpConfig) (e : PdcpEntity) (buffer : List UInt8) : List UInt8 :=
  decipher cfg (pduCount cfg e buffer) (setDataBit cfg buffer).1

/-- The SDU that `recvPdu` puts in `rx_list`, if it does. -/
def storedSdu (cfg : PdcpConfig) (e : PdcpEntity) (buffer : List UInt8) : Option PdcpSdu :=
  if LongEnough cfg buffer ∧ e.rxDeliv ≤ pduCount cfg e buffer ∧
      sduInList e.rxList (pduCount cfg e buffer) = false then
    some
      { count := pduCount cfg e buffer
        buffer := ((plainPdu cfg e buffer).take (buffer.length - cfg.integritySize)).drop
          cfg.headerSize }
  else none

/-- The SDUs among the outputs. -/
def delivered (outs : List Output) : List (List UInt8) :=
  outs.filterMap fun
    | .deliverSdu buf => some buf
    | _ => none

@[simp] theorem delivered_append (l l' : List Output) :
    delivered (l ++ l') = delivered l ++ delivered l' :=
  List.filterMap_append

@[simp] theorem delivered_sduOutputs (l : List PdcpSdu) :
    delivered (sduOutputs l) = l.map (·.buffer) := by
  induction l with
  | nil => rfl
  | cons s l ih => exact congrArg (s.buffer :: ·) ih

theorem setDataBit_spec (cfg : PdcpConfig) (buffer : List UInt8) :
    (setDataBit cfg buffer).1.length = buffer.length ∧
      delivered (setDataBit cfg buffer).2 = [] := by
  rw [setDataBit]
  split
  · exact ⟨List.length_set, rfl⟩
  · exact ⟨rfl, rfl⟩

theorem length_decipher (cfg : PdcpConfig) (count : ℕ) (buffer : List UInt8) :
    (decipher cfg count buffer).length = buffer.length := by
  rw [decipher]
  split
  · rw [List.length_append, cfg.security.cipher_length, ← List.length_append,
      List.take_append_drop]
  · rfl

theorem length_plainPdu (cfg : PdcpConfig) (e : PdcpEntity) (buffer : List UInt8) :
    (plainPdu cfg e buffer).length = buffer.length := by
  rw [plainPdu, length_decipher, (setDataBit_spec cfg buffer).1]

theorem recvPdu_short {cfg : PdcpConfig} {buffer : List UInt8} (h : ¬ LongEnough cfg buffer)
    (e : PdcpEntity) :
    (recvPdu cfg e buffer).1 = e ∧ delivered (recvPdu cfg e buffer).2 = [] := by
  obtain ⟨hlen, hhack⟩ := setDataBit_spec cfg buffer
  rw [recvPdu]
  split
  · exact ⟨rfl, rfl⟩
  · have hshort : (setDataBit cfg buffer).1.length < cfg.headerSize + cfg.integritySize + 1 := by
      rw [hlen]
      exact not_le.1 h
    simp only [if_pos hshort, true_and, delivered_append, hhack]
    rfl

theorem recvPdu_long {cfg : PdcpConfig} {buffer : List UInt8} (h : LongEnough cfg buffer)
    (e : PdcpEntity) :
    (recvPdu cfg e buffer).1 = (recvDataPdu cfg e (setDataBit cfg buffer).1).1 ∧
      delivered (recvPdu cfg e buffer).2 =
        delivered (recvDataPdu cfg e (setDataBit cfg buffer).1).2 := by
  obtain ⟨hlen, hhack⟩ := setDataBit_spec cfg buffer
  have h1 : ¬ buffer.length < 1 := by
    rw [LongEnough] at h
    omega
  have h2 : ¬ (setDataBit cfg buffer).1.length < cfg.headerSize + cfg.integritySize + 1 := by
    rw [hlen]
    exact not_lt.2 h
  simp only [recvPdu, if_neg h1, if_neg h2, delivered_append, hhack, List.nil_append, and_self]

/-- `recvPdu` by the SDU that it stores. -/
theorem recvPdu_spec (cfg : PdcpConfig) (e : PdcpEntity) (buffer : List UInt8) :
    match storedSdu cfg e buffer with
    | none => (recvPdu cfg e buffer).1 = e ∧ delivered (recvPdu cfg e buffer).2 = []
    | some sdu =>
        (recvPdu cfg e buffer).1 = (storeSdu e sdu (buffer.length - cfg.headerSize)).1 ∧
          delivered (recvPdu cfg e buffer).2 =
            delivered (storeSdu e sdu (buffer.length - cfg.headerSize)).2 := by
  by_cases hlong : LongEnough cfg buffer
  · obtain ⟨h1, h2⟩ := recvPdu_long hlong e
    rw [h1, h2]
    have hlog : ∀ b : Bool, delivered (if b then [.log .integrityFailed] else []) = [] := by
      rintro (_ | _) <;> rfl
    have hlen := length_plainPdu cfg e buffer
    rw [plainPdu] at hlen
    by_cases hd : e.rxDeliv ≤ pduCount cfg e buffer ∧
        sduInList e.rxList (pduCount cfg e buffer) = false
    · have hd' : ¬ (pduCount cfg e buffer < e.rxDeliv ||
          sduInList e.rxList (pduCount cfg e buffer)) = true := by
        simpa using hd
      rw [storedSdu, if_pos ⟨hlong, hd⟩]
      rw [pduCount, pduSn] at hd' hlen
      simp only [recvDataPdu, if_neg hd', delivered_append, hlog, List.nil_append, hlen]
      exact ⟨rfl, rfl⟩
    · have hd' : (pduCount cfg e buffer < e.rxDeliv ||
          sduInList e.rxList (pduCount cfg e buffer)) = true := by
        by_contra h
        exact hd (by simpa using h)
      rw [storedSdu, if_neg fun h => hd h.2]
      rw [pduCount, pduSn] at hd'
      simp only [recvDataPdu, if_pos hd', delivered_append, hlog, List.nil_append, true_and]
      rfl
  · rw [storedSdu, if_neg fun h => hlong h.1]
    exact recvPdu_short hlong e

/-! ## The receive window -/

/-- The COUNT of what the PDU stores is in the receive window and completes the SN, and
`rx_next` stays at most one window above `rx_deliv`. -/
structure StoresInWindow (cfg : PdcpConfig) (e : PdcpEntity) (buffer : List UInt8) : Prop where
  window : ∀ sdu, storedSdu cfg e buffer = some sdu →
    e.rxDeliv ≤ sdu.count ∧ sdu.count < e.rxDeliv + cfg.windowSize ∧
      sdu.count % 2 ^ cfg.snSize = pduSn cfg buffer
  next : (recvPdu cfg e buffer).1.rxNext = e.rxNext ∨
    (recvPdu cfg e buffer).1.rxNext ≤ e.rxDeliv + cfg.windowSize

/-- Every PDU that is received is stored inside the window. -/
def WindowKept (cfg : PdcpConfig) (e : PdcpEntity) : Call → Prop
  | .recvPdu buffer => StoresInWindow cfg e buffer
  | _ => True

/-- The SN of the PDU is a window or more above `rx_deliv` while there is no previous HFN. -/
def UnderflowsHfn (cfg : PdcpConfig) (e : PdcpEntity) (buffer : List UInt8) : Prop :=
  LongEnough cfg buffer ∧ e.rxDeliv < 2 ^ cfg.snSize ∧
    e.rxDeliv + cfg.windowSize ≤ pduSn cfg buffer

def NoUnderflow (cfg : PdcpConfig) (e : PdcpEntity) : Call → Prop
  | .recvPdu buffer => ¬ UnderflowsHfn cfg e buffer
  | _ => True

structure WindowInv (cfg : PdcpConfig) (e : PdcpEntity) : Prop extends Buffered e where
  window : ∀ s ∈ e.rxList, s.count < e.rxDeliv + cfg.windowSize

theorem pduCount_cases (cfg : PdcpConfig) {e : PdcpEntity} (hD : e.rxDeliv < 2 ^ 32)
    (buffer : List UInt8) :
    pduCount cfg e buffer % 2 ^ cfg.snSize = pduSn cfg buffer ∧ pduCount cfg e buffer < 2 ^ 32 ∧
      if e.rxDeliv < 2 ^ cfg.snSize ∧ e.rxDeliv + cfg.windowSize ≤ pduSn cfg buffer then
        pduCount cfg e buffer = 2 ^ 32 - 2 ^ cfg.snSize + pduSn cfg buffer
      else pduCount cfg e buffer < e.rxDeliv + cfg.windowSize :=
  rcvdCount_cases cfg hD (rcvdSn_lt cfg _)

theorem storedSdu_some {cfg : PdcpConfig} {e : PdcpEntity} {buffer : List UInt8} {sdu : PdcpSdu}
    (h : storedSdu cfg e buffer = some sdu) :
    LongEnough cfg buffer ∧ sdu.count = pduCount cfg e buffer ∧ e.rxDeliv ≤ sdu.count ∧
      ∀ s ∈ e.rxList, s.count ≠ sdu.count := by
  rw [storedSdu] at h
  split at h
  · rename_i hc
    cases h
    exact ⟨hc.1, rfl, hc.2.1, sduInList_eq_false.1 hc.2.2⟩
  · cases h

/-- Without an underflow, what is stored is in the window. -/
theorem storedSdu_window {cfg : PdcpConfig} {e : PdcpEntity} {buffer : List UInt8} {sdu : PdcpSdu}
    (hD : e.rxDeliv < 2 ^ 32) (hu : ¬ UnderflowsHfn cfg e buffer)
    (h : storedSdu cfg e buffer = some sdu) :
    sdu.count < e.rxDeliv + cfg.windowSize ∧ sdu.count < 2 ^ 32 ∧
      sdu.count % 2 ^ cfg.snSize = pduSn cfg buffer := by
  obtain ⟨hlong, hc, -, -⟩ := storedSdu_some h
  obtain ⟨h1, h2, h3⟩ := pduCount_cases cfg hD buffer
  rw [if_neg fun h => hu ⟨hlong, h⟩] at h3
  exact ⟨hc ▸ h3, hc ▸ h2, hc ▸ h1⟩

theorem storeSdu_rxNext {e : PdcpEntity} {sdu : PdcpSdu} (size : ℕ) :
    (storeSdu e sdu size).1.rxNext =
      if sdu.count ≥ e.rxNext then (sdu.count + 1) % 2 ^ 32 else e.rxNext := by
  rw [storeSdu_eq]
  split
  · exact (restart_spec _).2.2.1
  · exact (restart_spec _).2.2.1

theorem windowKept_iff {cfg : PdcpConfig} {e : PdcpEntity} (hI : WindowInv cfg e) (call : Call) :
    WindowKept cfg e call ↔ NoUnderflow cfg e call := by
  cases call with
  | recvSdu buffer sduId => exact Iff.rfl
  | setTime now => exact Iff.rfl
  | recvPdu buffer =>
      have hspec := recvPdu_spec cfg e buffer
      constructor
      · rintro ⟨hw, -⟩ ⟨hlong, hlo, hhi⟩
        obtain ⟨-, -, hc⟩ := pduCount_cases cfg hI.deliv_lt buffer
        rw [if_pos ⟨hlo, hhi⟩] at hc
        have hw2 := windowSize_eq cfg
        have hsn : (2 : ℕ) ^ cfg.snSize ≤ 2 ^ 18 :=
          Nat.pow_le_pow_right (by decide) (by rcases cfg.snSize_eq with h | h <;> omega)
        -- the COUNT is far above everything in the list
        have hfar : e.rxDeliv + cfg.windowSize ≤ pduCount cfg e buffer := by
          omega
        have hlist : sduInList e.rxList (pduCount cfg e buffer) = false := by
          refine sduInList_eq_false.2 fun s hs => ?_
          have := hI.window s hs
          omega
        have hst : storedSdu cfg e buffer = some _ :=
          if_pos ⟨hlong, le_trans (Nat.le_add_right _ _) hfar, hlist⟩
        exact absurd (hw _ hst).2.1 (not_lt.2 hfar)
      · intro hu
        refine ⟨fun sdu hst => ?_, ?_⟩
        · obtain ⟨h1, -, h2⟩ := storedSdu_window hI.deliv_lt hu hst
          exact ⟨(storedSdu_some hst).2.2.1, h1, h2⟩
        · split at hspec
          · exact .inl (by rw [hspec.1])
          · rename_i sdu hst
            have h1 := (storedSdu_window hI.deliv_lt hu hst).1
            rw [hspec.1, storeSdu_rxNext]
            split
            · exact .inr ((Nat.mod_le _ _).trans h1)
            · exact .inl rfl

theorem windowInv_step {cfg : PdcpConfig} {e e' : PdcpEntity} {call : Call} {out : List Output}
    (hI : WindowInv cfg e) (hu : NoUnderflow cfg e call)
    (hs : pdcpStep cfg e call = .ok (e', out)) : WindowInv cfg e' := by
  cases call with
  | recvSdu buffer sduId =>
      cases hs
      exact ⟨hI.toBuffered.of_eq rfl rfl rfl rfl rfl, hI.window⟩
  | setTime now =>
      have hb : Buffered { e with tCurrent := now.toNat } :=
        hI.toBuffered.of_eq rfl rfl rfl rfl rfl
      obtain rfl : (setTime cfg e now).1 = e' := congrArg Prod.fst (Except.ok.inj hs)
      refine ⟨buffered_checkTReordering cfg hb, ?_⟩
      rcases checkTReordering_spec cfg hb with h | ⟨hrun, bound, ds, hf, -⟩
      · rw [setTime, h]
        exact hI.window
      · intro s hs
        obtain ⟨-, hd, -⟩ := hf.lt_of_mem (fun s hs => (hb.counts s hs).2) hs
        have hlow : e.rxDeliv < e.rxReord := hI.gap hrun
        have hle : e.rxReord ≤ bound := hf.start_le
        have := hI.window s (hf.split ▸ List.mem_append_right _ hs)
        rw [setTime, hd]
        omega
  | recvPdu buffer =>
      have hspec := recvPdu_spec cfg e buffer
      obtain rfl : (recvPdu cfg e buffer).1 = e' := congrArg Prod.fst (Except.ok.inj hs)
      split at hspec
      · rw [hspec.1]
        exact hI
      · rename_i sdu hst
        obtain ⟨-, -, hlow, hne⟩ := storedSdu_some hst
        obtain ⟨hhigh, hlt, -⟩ := storedSdu_window hI.deliv_lt hu hst
        rw [hspec.1]
        refine ⟨buffered_storeSdu _ hI.toBuffered ⟨hlow, hlt⟩ hne, fun s hs => ?_⟩
        obtain ⟨bound, ds, hf, -⟩ := storeSdu_spec _ hI.toBuffered ⟨hlow, hlt⟩ hne
        obtain ⟨-, hd, -⟩ := hf.lt_of_mem (mem_sduListAdd_lt hI.toBuffered hlt) hs
        have hle := hf.start_le
        have hmem : s ∈ sduListAdd e.rxList sdu := hf.split ▸ List.mem_append_right _ hs
        rw [hd]
        rcases mem_sduListAdd.1 hmem with rfl | hmem
        · omega
        · have := hI.window s hmem
          omega

/-- What a run stores is inside the receive window exactly if no PDU arrives whose SN is a
window or more above `rx_deliv` during the first HFN. -/
theorem window_kept (cfg : PdcpConfig) (calls : List Call) :
    Along (pdcpStep cfg) (WindowKept cfg) {} calls ↔
      Along (pdcpStep cfg) (NoUnderflow cfg) {} calls :=
  along_iff_along (fun _ call hI => windowKept_iff hI call)
    (fun _ _ _ _ hI hu hs => windowInv_step hI hu hs)
    { buffered_new with window := fun _ hs => absurd hs List.not_mem_nil }

/-- A keystream that depends on the COUNT, and a MAC-I that adds up the bytes. -/
def exampleSecurity : Security where
  cipher := fun _ count _ l => l.map (· ^^^ UInt8.ofNat count)
  integrity := fun _ count _ l => [UInt8.ofNat count, l.foldl (· + ·) 0, 0, 0]
  cipher_length := fun _ _ _ _ => List.length_map _
  integrity_length := fun _ _ _ _ => rfl

def exampleCfg (isGnb : Bool) : PdcpConfig where
  type := .drbAm
  isGnb
  rbId := 1
  snSize := 12
  snSize_eq := .inl rfl
  tReordering := 100
  hasCiphering := true
  hasIntegrity := true
  security := exampleSecurity

/-- The first PDU that arrives has SN 2048: its COUNT is taken to be 2^32 - 2048. -/
theorem window_left :
    ¬ Along (pdcpStep (exampleCfg true)) (WindowKept (exampleCfg true)) {}
      [.recvPdu [0x88, 0, 1, 0, 0, 0, 0]] := by
  rintro ⟨h, -⟩
  have hst : storedSdu (exampleCfg true) {} [0x88, 0, 1, 0, 0, 0, 0] =
      some { count := 2 ^ 32 - 2048, buffer := [1] } := by
    decide +kernel
  exact absurd (h.window _ hst).2.1 (by decide)

end OaiCu.NrPdcp
