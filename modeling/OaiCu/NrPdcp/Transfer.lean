import OaiCu.NrPdcp.Window

/-!
# Transfer of SDUs between two PDCP entities

A sender and a receiver of one bearer over a channel that loses, duplicates and reorders
PDUs. As long as the PDUs that arrive are in the window around `rx_deliv`, the SDUs
delivered are a subsequence of the SDUs sent.
-/

namespace OaiCu.NrPdcp

open Machine

/-- The entity at the other end of the bearer. -/
def PdcpConfig.peer (cfg : PdcpConfig) (tReordering : ℤ) : PdcpConfig :=
  { cfg with
    isGnb := !cfg.isGnb
    tReordering }

/-! ## One PDU -/

section Pdu

variable (cfg : PdcpConfig)

theorem length_txHeader (sn : ℕ) : (txHeader cfg sn).length = cfg.headerSize := by
  rw [txHeader, PdcpConfig.headerSize]
  split <;> rfl

/-- The first byte of a header is the D/C bit and the upper bits of the SN. -/
theorem dcByte : ∀ y < 16, (UInt8.ofNat (0x80 ||| y)).toNat = 128 + y ∧
    (UInt8.ofNat (0 ||| y)).toNat = y ∧ UInt8.ofNat (0x80 ||| y) &&& 0x80 ≠ 0 := by
  decide

/-- The D/C bit of a DRB is set. -/
theorem setDataBit_txHeader (sn : ℕ) (l : List UInt8) :
    (setDataBit cfg (txHeader cfg sn ++ l)).1 = txHeader cfg sn ++ l := by
  rw [setDataBit, if_neg]
  rintro ⟨hdrb, hbit⟩
  have hdc : cfg.type = .drbAm ∨ cfg.type = .drbUm := by
    cases h : cfg.type with
    | drbAm => exact .inl rfl
    | drbUm => exact .inr rfl
    | srb => exact absurd h hdrb
  rw [txHeader] at hbit
  simp only [if_pos hdc] at hbit
  split at hbit
  · exact (dcByte _ (Nat.lt_succ_of_le Nat.and_le_right)).2.2 hbit
  · refine (dcByte ((sn >>> 16) &&& 3) ?_).2.2 hbit
    exact lt_of_le_of_lt Nat.and_le_right (by decide)

/-- The SN survives the header. -/
theorem rcvdSn_txHeader {sn : ℕ} (hsn : sn < 2 ^ cfg.snSize) (l : List UInt8) :
    rcvdSn cfg (txHeader cfg sn ++ l) = sn := by
  have hbyte : ∀ x, (UInt8.ofNat (x &&& 0xff)).toNat = x % 256 := by
    intro x
    rw [UInt8.toNat_ofNat', Nat.and_two_pow_sub_one_eq_mod x 8, Nat.mod_mod]
  -- the D/C bit is above the bits of the SN
  have hfirst : ∀ y < 16, (UInt8.ofNat ((if cfg.type = .drbAm ∨ cfg.type = .drbUm then 0x80 else 0)
      ||| y)).toNat % 16 = y := by
    intro y hy
    obtain ⟨h1, h2, -⟩ := dcByte y hy
    split
    · rw [h1]
      omega
    · rw [h2]
      omega
  rcases cfg.snSize_eq with h | h
  · rw [h] at hsn
    have hy : (sn >>> 8) &&& 0xf = sn / 256 := by
      rw [Nat.and_two_pow_sub_one_eq_mod _ 4, Nat.shiftRight_eq_div_pow]
      omega
    have h0 := hfirst (sn / 256) (by omega)
    rw [rcvdSn, if_pos h, txHeader, if_pos h, hy]
    simp only [List.cons_append, List.nil_append, List.getD_cons_zero, List.getD_cons_succ, hbyte]
    rw [Nat.and_two_pow_sub_one_eq_mod _ 4, show (2 : ℕ) ^ 4 = 16 from rfl, h0,
      ← Nat.shiftLeft_add_eq_or_of_lt (Nat.mod_lt _ (by decide)), Nat.shiftLeft_eq]
    omega
  · rw [h] at hsn
    have h12 : ¬ cfg.snSize = 12 := by omega
    have hy : (sn >>> 16) &&& 0x3 = sn / 65536 := by
      rw [Nat.and_two_pow_sub_one_eq_mod _ 2, Nat.shiftRight_eq_div_pow]
      omega
    have h0 := hfirst (sn / 65536) (by omega)
    rw [rcvdSn, if_neg h12, txHeader, if_neg h12, hy]
    simp only [List.cons_append, List.nil_append, List.getD_cons_zero, List.getD_cons_succ, hbyte]
    rw [Nat.and_two_pow_sub_one_eq_mod _ 2, Nat.shiftRight_eq_div_pow, Nat.or_assoc,
      ← Nat.shiftLeft_add_eq_or_of_lt (Nat.mod_lt sn (by decide : 0 < 256)),
      ← Nat.shiftLeft_add_eq_or_of_lt]
    · simp only [Nat.shiftLeft_eq]
      omega
    · simp only [Nat.shiftLeft_eq]
      omega

/-- What follows the header, before ciphering: the SDU and its MAC-I. -/
def txPayload (count : ℕ) (buffer : List UInt8) : List UInt8 :=
  buffer ++
    if cfg.hasIntegrity then
      cfg.security.integrity cfg.rbId count cfg.txDirection
        (txHeader cfg (count &&& cfg.snMax) ++ buffer)
    else List.replicate cfg.integritySize 0

theorem txPdu_eq (count : ℕ) (buffer : List UInt8) :
    txPdu cfg count buffer = txHeader cfg (count &&& cfg.snMax) ++
      if cfg.hasCiphering then
        cfg.security.cipher cfg.rbId count cfg.txDirection (txPayload cfg count buffer)
      else txPayload cfg count buffer :=
  rfl

theorem length_txPayload (count : ℕ) (buffer : List UInt8) :
    (txPayload cfg count buffer).length = buffer.length + cfg.integritySize := by
  rw [txPayload, List.length_append]
  congr 1
  split
  · rename_i h
    rw [cfg.security.integrity_length, PdcpConfig.integritySize, h]
    rfl
  · exact List.length_replicate

theorem length_txPdu (count : ℕ) (buffer : List UInt8) :
    (txPdu cfg count buffer).length = cfg.headerSize + buffer.length + cfg.integritySize := by
  have hcipher : (if cfg.hasCiphering then cfg.security.cipher cfg.rbId count cfg.txDirection
      (txPayload cfg count buffer) else txPayload cfg count buffer).length =
        buffer.length + cfg.integritySize := by
    rw [← length_txPayload cfg count buffer]
    split
    · exact cfg.security.cipher_length _ _ _ _
    · rfl
  rw [txPdu_eq, List.length_append, length_txHeader, hcipher, Nat.add_assoc]

variable (t : ℤ)

theorem rxDirection_peer : (cfg.peer t).rxDirection = cfg.txDirection := by
  rw [PdcpConfig.rxDirection, PdcpConfig.txDirection, PdcpConfig.peer]
  cases cfg.isGnb <;> rfl

theorem setDataBit_txPdu (count : ℕ) (buffer : List UInt8) :
    (setDataBit (cfg.peer t) (txPdu cfg count buffer)).1 = txPdu cfg count buffer :=
  setDataBit_txHeader cfg _ _

/-- The peer reads the COUNT that the sender had, if it is in the window. -/
theorem pduCount_txPdu {e : PdcpEntity} {count : ℕ} (hD : e.rxDeliv < 2 ^ 32)
    (hc : count < 2 ^ 32) (hlo : e.rxDeliv ≤ count + cfg.windowSize)
    (hhi : count < e.rxDeliv + cfg.windowSize) (buffer : List UInt8) :
    pduCount (cfg.peer t) e (txPdu cfg count buffer) = count := by
  have hsn : count &&& cfg.snMax = count % 2 ^ cfg.snSize := Nat.and_two_pow_sub_one_eq_mod _ _
  rw [pduCount, pduSn, setDataBit_txPdu, txPdu_eq, hsn]
  change rcvdCount (cfg.peer t) e.rxDeliv (rcvdSn cfg _) = count
  rw [rcvdSn_txHeader cfg (Nat.mod_lt _ (by positivity))]
  exact rcvdCount_of_window (cfg.peer t) hD hc hlo hhi

/-- The peer undoes the ciphering. -/
theorem decipher_txPdu (hinv : ∀ b c d l, cfg.security.cipher b c d (cfg.security.cipher b c d l) = l)
    (count : ℕ) (buffer : List UInt8) :
    decipher (cfg.peer t) count (txPdu cfg count buffer) =
      txHeader cfg (count &&& cfg.snMax) ++ txPayload cfg count buffer := by
  have hlen := length_txHeader cfg (count &&& cfg.snMax)
  rw [decipher, txPdu_eq, rxDirection_peer]
  change (if cfg.hasCiphering then _ else _) = _
  split
  · change List.take cfg.headerSize _ ++ cfg.security.cipher cfg.rbId count cfg.txDirection
      (List.drop cfg.headerSize _) = _
    rw [← hlen, List.take_left, List.drop_left, hinv]
  · rfl

/-- What the peer stores of the PDU of an SDU: the SDU, unless it is empty, old or there. -/
theorem storedSdu_txPdu
    (hinv : ∀ b c d l, cfg.security.cipher b c d (cfg.security.cipher b c d l) = l)
    {e : PdcpEntity} {count : ℕ} (hD : e.rxDeliv < 2 ^ 32) (hc : count < 2 ^ 32)
    (hlo : e.rxDeliv ≤ count + cfg.windowSize) (hhi : count < e.rxDeliv + cfg.windowSize)
    {buffer : List UInt8} {sdu : PdcpSdu}
    (h : storedSdu (cfg.peer t) e (txPdu cfg count buffer) = some sdu) :
    sdu = { count, buffer } ∧ e.rxDeliv ≤ count ∧ ∀ s ∈ e.rxList, s.count ≠ count := by
  have hcount := pduCount_txPdu cfg t hD hc hlo hhi buffer
  obtain ⟨-, hsc, hle, hne⟩ := storedSdu_some h
  rw [hcount] at hsc
  refine ⟨?_, hsc ▸ hle, hsc ▸ hne⟩
  rw [storedSdu] at h
  split at h
  · have hplain : plainPdu (cfg.peer t) e (txPdu cfg count buffer) =
        txHeader cfg (count &&& cfg.snMax) ++ txPayload cfg count buffer := by
      rw [plainPdu, hcount, setDataBit_txPdu, decipher_txPdu cfg t hinv]
    rw [hplain, hcount, length_txPdu] at h
    cases h
    congr 1
    change List.drop cfg.headerSize (List.take (_ - cfg.integritySize) _) = buffer
    have hlen := length_txHeader cfg (count &&& cfg.snMax)
    rw [Nat.add_sub_cancel, ← hlen, List.take_length_add_append, List.drop_left, txPayload,
      List.take_left]
  · cases h

end Pdu

/-! ## The link -/

/-- A sender, a receiver and the channel between them. The channel keeps every PDU: one that
is lost never arrives, one that is duplicated arrives again. `sent` is the history of SDUs. -/
structure Link where
  sender : PdcpEntity := {}
  receiver : PdcpEntity := {}
  channel : List (List UInt8) := []
  sent : List (List UInt8) := []
deriving DecidableEq, Repr

inductive LinkEvent
  | send (buffer : List UInt8) (sduId : ℤ)
  /-- The PDU that was sent as number `i` arrives. -/
  | arrive (i : ℕ)
  | setTime (now : UInt64)
deriving DecidableEq, Repr

/-- The PDUs among the outputs. -/
def pdusOf (outs : List Output) : List (List UInt8) :=
  outs.filterMap fun
    | .deliverPdu buf _ => some buf
    | _ => none

/-- The environment sees what the receiver does. -/
def linkStep (cfg : PdcpConfig) (t : ℤ) (l : Link) :
    LinkEvent → Except Empty (Link × List Output)
  | .send buffer sduId =>
      let (sender, out) := recvSdu cfg l.sender buffer sduId
      .ok ({ l with
        sender
        channel := l.channel ++ pdusOf out
        sent := l.sent ++ [buffer] }, [])
  | .arrive i =>
      match l.channel[i]? with
      | none => .ok (l, [])
      | some pdu =>
          let (receiver, out) := recvPdu (cfg.peer t) l.receiver pdu
          .ok ({ l with receiver }, out)
  | .setTime now =>
      let (receiver, out) := setTime (cfg.peer t) l.receiver now
      .ok ({ l with receiver }, out)

/-- What arrives has a COUNT in the window around `rx_deliv`. The PDU sent as number `i` has
COUNT `i`. -/
def InWindow (cfg : PdcpConfig) (l : Link) : LinkEvent → Prop
  | .arrive i =>
      i < l.channel.length → l.receiver.rxDeliv ≤ i + cfg.windowSize ∧
        i < l.receiver.rxDeliv + cfg.windowSize
  | _ => True

/-! ## The receiver against what was sent -/

/-- SDUs in the order of COUNT are a subsequence of those sent. -/
theorem sublist_of_counts {sent : List (List UInt8)} {bound : ℕ} : ∀ {ds : List PdcpSdu} {a : ℕ},
    CountSorted ds → (∀ s ∈ ds, a ≤ s.count ∧ s.count < bound) →
    (∀ s ∈ ds, sent[s.count]? = some s.buffer) →
    (ds.map (·.buffer)).Sublist ((sent.take bound).drop a)
  | [], _, _, _, _ => List.nil_sublist _
  | s :: ds, a, hs, hb, hd => by
      obtain ⟨hcur, hs⟩ := List.pairwise_cons.1 hs
      obtain ⟨ha, hlt⟩ := hb s List.mem_cons_self
      have hget : (sent.take bound)[s.count]? = some s.buffer := by
        rw [List.getElem?_take_of_lt hlt]
        exact hd s List.mem_cons_self
      have ih : (ds.map (·.buffer)).Sublist ((sent.take bound).drop (s.count + 1)) :=
        sublist_of_counts hs
          (fun x hx => ⟨hcur x hx, (hb x (List.mem_cons_of_mem _ hx)).2⟩)
          (fun x hx => hd x (List.mem_cons_of_mem _ hx))
      have hcut : s.buffer :: (sent.take bound).drop (s.count + 1) =
          (sent.take bound).drop s.count := by
        obtain ⟨hlen, hval⟩ := List.getElem?_eq_some_iff.1 hget
        rw [← hval, ← List.drop_eq_getElem_cons hlen]
      rw [List.map_cons]
      exact ((ih.cons_cons s.buffer).trans (hcut ▸ List.Sublist.refl _)).trans
        (List.drop_sublist_drop_left _ ha)

/-- The receiver holds SDUs that were sent, in the order of COUNT, and delivered a
subsequence of those below `rx_deliv`. -/
structure RxInv (sent : List (List UInt8)) (e : PdcpEntity) (outs : List Output) : Prop
    extends Buffered e where
  deliv_le : e.rxDeliv ≤ e.rxNext
  next_le : e.rxNext ≤ sent.length
  reord_le : e.tReorderingStart ≠ 0 → e.rxReord ≤ e.rxNext
  below : ∀ s ∈ e.rxList, s.count < e.rxNext
  data : ∀ s ∈ e.rxList, sent[s.count]? = some s.buffer
  done : (delivered outs).Sublist (sent.take e.rxDeliv)

/-- Either delivery loop keeps this up. -/
theorem RxInv.flush {sent : List (List UInt8)} {e e' : PdcpEntity} {outs out : List Output}
    {start bound : ℕ} {l ds : List PdcpSdu} (hI : RxInv sent e outs)
    (hlen : sent.length < 2 ^ 32) (hf : Flushed start bound l ds e') (ht : TimerFrom e e')
    (hs : CountSorted l) (hstart : e.rxDeliv ≤ start ∧ start ≤ e'.rxNext)
    (hnext : e.rxNext ≤ e'.rxNext ∧ e'.rxNext ≤ sent.length)
    (hl : ∀ s ∈ l, e.rxDeliv ≤ s.count ∧ s.count < e'.rxNext)
    (hd : ∀ s ∈ l, sent[s.count]? = some s.buffer)
    (hout : delivered out = ds.map (·.buffer)) : RxInv sent e' (outs ++ out) := by
  have hmem : ∀ s ∈ ds, s ∈ l := fun s h => hf.split ▸ List.mem_append_left _ h
  have hrest : ∀ s ∈ e'.rxList, s ∈ l := fun s h => hf.split ▸ List.mem_append_right _ h
  have hbound : bound ≤ e'.rxNext := by
    rcases hf.reached with h | ⟨s, hm, h⟩
    · exact h ▸ hstart.2
    · exact h ▸ (hl s (hmem s hm)).2
  have hdeliv : e'.rxDeliv = bound := by
    rw [hf.deliv, Nat.mod_eq_of_lt (by omega)]
  have hb : Buffered e' := by
    refine hf.buffered hs (fun s h => ?_) (by omega) hI.reord_lt ht
    have := (hl s h).2
    omega
  refine
    { hb with
      deliv_le := hdeliv ▸ hbound
      next_le := hnext.2
      reord_le := fun h => ?_
      below := fun s h => (hl s (hrest s h)).2
      data := fun s h => hd s (hrest s h)
      done := ?_ }
  · rcases ht.since h with h | ⟨hrun, h⟩
    · exact h.le
    · exact h ▸ (hI.reord_le hrun).trans hnext.1
  · have hsorted : CountSorted ds := by
      rw [hf.split] at hs
      exact (List.pairwise_append.1 hs).1
    have hsub := sublist_of_counts hsorted
      (fun s h => ⟨(hl s (hmem s h)).1, hf.below s h⟩) (fun s h => hd s (hmem s h))
    have hle : e.rxDeliv ≤ bound := hstart.1.trans hf.start_le
    have htake : sent.take bound = sent.take e.rxDeliv ++ (sent.take bound).drop e.rxDeliv := by
      have h := (List.take_append_drop e.rxDeliv (sent.take bound)).symm
      rwa [List.take_take, Nat.min_eq_left hle] at h
    rw [delivered_append, hout, hdeliv, htake]
    exact hI.done.append hsub

theorem rxInv_new : RxInv [] {} [] where
  toBuffered := buffered_new
  deliv_le := le_rfl
  next_le := le_rfl
  reord_le := fun h => absurd rfl h
  below := fun _ h => absurd h List.not_mem_nil
  data := fun _ h => absurd h List.not_mem_nil
  done := List.nil_sublist _

/-- The PDU of COUNT `count` arrives in the window. -/
theorem RxInv.arrive {cfg : PdcpConfig} {t : ℤ}
    (hinv : ∀ b c d l, cfg.security.cipher b c d (cfg.security.cipher b c d l) = l)
    {sent : List (List UInt8)} {e : PdcpEntity} {outs : List Output} (hI : RxInv sent e outs)
    (hlen : sent.length < 2 ^ 32) {count : ℕ} {buffer : List UInt8}
    (hsent : sent[count]? = some buffer) (hlo : e.rxDeliv ≤ count + cfg.windowSize)
    (hhi : count < e.rxDeliv + cfg.windowSize) :
    RxInv sent (recvPdu (cfg.peer t) e (txPdu cfg count buffer)).1
      (outs ++ (recvPdu (cfg.peer t) e (txPdu cfg count buffer)).2) := by
  have hspec := recvPdu_spec (cfg.peer t) e (txPdu cfg count buffer)
  have hcount : count < sent.length := (List.getElem?_eq_some_iff.1 hsent).1
  split at hspec
  · rw [hspec.1]
    exact { hI with done := by rw [delivered_append, hspec.2, List.append_nil]; exact hI.done }
  · rename_i sdu hst
    obtain ⟨rfl, hle, hne⟩ :=
      storedSdu_txPdu cfg t hinv hI.deliv_lt (hcount.trans hlen) hlo hhi hst
    obtain ⟨bound, ds, hf, hout, hnext, ht⟩ :=
      @storeSdu_spec e { count, buffer }
        ((txPdu cfg count buffer).length - (cfg.peer t).headerSize) hI.toBuffered
        ⟨hle, hcount.trans hlen⟩ hne
    rw [← hspec.1] at hf hnext ht
    have hnext' : e.rxNext ≤ (recvPdu (cfg.peer t) e (txPdu cfg count buffer)).1.rxNext ∧
        (recvPdu (cfg.peer t) e (txPdu cfg count buffer)).1.rxNext ≤ sent.length ∧
        count < (recvPdu (cfg.peer t) e (txPdu cfg count buffer)).1.rxNext := by
      have := hI.next_le
      rw [hnext]
      simp only
      split <;> omega
    refine hI.flush hlen hf ht (countSorted_sduListAdd hI.sorted hne)
      ⟨le_rfl, hI.deliv_le.trans hnext'.1⟩ ⟨hnext'.1, hnext'.2.1⟩ ?_ ?_ ?_
    · intro s hs
      rcases mem_sduListAdd.1 hs with rfl | hs
      · exact ⟨hle, hnext'.2.2⟩
      · exact ⟨(hI.counts s hs).1.le, (hI.below s hs).trans_le hnext'.1⟩
    · intro s hs
      rcases mem_sduListAdd.1 hs with rfl | hs
      · exact hsent
      · exact hI.data s hs
    · rw [hspec.2, hout, delivered_sduOutputs]

theorem RxInv.setTime {cfg : PdcpConfig} {sent : List (List UInt8)} {e : PdcpEntity}
    {outs : List Output} (hI : RxInv sent e outs) (hlen : sent.length < 2 ^ 32) (now : UInt64) :
    RxInv sent (NrPdcp.setTime cfg e now).1 (outs ++ (NrPdcp.setTime cfg e now).2) := by
  have hI' : RxInv sent { e with tCurrent := now.toNat } outs :=
    { hI.toBuffered.of_eq rfl rfl rfl rfl rfl with
      deliv_le := hI.deliv_le
      next_le := hI.next_le
      reord_le := hI.reord_le
      below := hI.below
      data := hI.data
      done := hI.done }
  rw [NrPdcp.setTime]
  rcases checkTReordering_spec cfg hI'.toBuffered with h | ⟨hrun, bound, ds, hf, hout, hnext, ht⟩
  · rw [h, List.append_nil]
    exact hI'
  · refine hI'.flush hlen hf ht hI.sorted ?_ ?_ ?_ hI.data ?_
    · exact ⟨(hI.gap hrun).le, (hI.reord_le hrun).trans hnext.ge⟩
    · exact ⟨hnext.ge, hnext.le.trans hI.next_le⟩
    · intro s hs
      exact ⟨(hI.counts s hs).1.le, (hI.below s hs).trans_le hnext.ge⟩
    · rw [hout, delivered_sduOutputs]

/-- More SDUs were sent. -/
theorem RxInv.send {sent : List (List UInt8)} {e : PdcpEntity} {outs : List Output}
    (hI : RxInv sent e outs) (buffer : List UInt8) : RxInv (sent ++ [buffer]) e outs where
  toBuffered := hI.toBuffered
  deliv_le := hI.deliv_le
  next_le := by
    rw [List.length_append]
    exact hI.next_le.trans (Nat.le_add_right _ _)
  reord_le := hI.reord_le
  below := hI.below
  data := by
    intro s hs
    rw [List.getElem?_append_left ((hI.below s hs).trans_le hI.next_le)]
    exact hI.data s hs
  done := by
    rw [List.take_append_of_le_length (hI.deliv_le.trans hI.next_le)]
    exact hI.done

/-! ## The whole link -/

/-- Every PDU in the channel is that of its SDU. -/
structure LinkInv (cfg : PdcpConfig) (l : Link) (outs : List Output) : Prop where
  txNext : l.sender.txNext = l.sent.length
  channel : l.channel = l.sent.mapIdx (txPdu cfg)
  rx : RxInv l.sent l.receiver outs

theorem linkInv_step {cfg : PdcpConfig} {t : ℤ}
    (hinv : ∀ b c d l, cfg.security.cipher b c d (cfg.security.cipher b c d l) = l)
    {l l' : Link} {ev : LinkEvent} {outs out : List Output}
    (hI : l.sent.length < 2 ^ 32 → LinkInv cfg l outs) (hw : InWindow cfg l ev)
    (hs : linkStep cfg t l ev = .ok (l', out)) (hlen : l'.sent.length < 2 ^ 32) :
    LinkInv cfg l' (outs ++ out) := by
  cases ev with
  | send buffer sduId =>
      cases hs
      simp only [List.length_append, List.length_singleton] at hlen
      obtain ⟨h1, h2, h3⟩ := hI (by omega)
      refine ⟨?_, ?_, ?_⟩
      · simp only [h1, List.length_append, List.length_singleton]
        exact Nat.mod_eq_of_lt hlen
      · simp [h2, List.mapIdx_append, h1, pdusOf]
      · rw [List.append_nil]
        exact h3.send buffer
  | setTime now =>
      cases hs
      obtain ⟨h1, h2, h3⟩ := hI hlen
      exact ⟨h1, h2, h3.setTime hlen now⟩
  | arrive i =>
      rw [linkStep] at hs
      split at hs
      · cases hs
        rw [List.append_nil]
        exact hI hlen
      · rename_i pdu hpdu
        cases hs
        obtain ⟨h1, h2, h3⟩ := hI hlen
        obtain ⟨hlo, hhi⟩ := hw (List.getElem?_eq_some_iff.1 hpdu).1
        rw [h2, List.getElem?_mapIdx, Option.map_eq_some_iff] at hpdu
        obtain ⟨buffer, hsent, rfl⟩ := hpdu
        exact ⟨h1, h2, h3.arrive hinv hlen hsent hlo hhi⟩

/-- In-order delivery: as long as the PDUs that arrive are in the window and fewer than
`2^32 - window_size` SDUs are sent, the SDUs delivered are a subsequence of the SDUs sent, and
`rx_list` is sorted with all COUNTs between `rx_deliv` and `rx_next`. -/
theorem delivery_in_order (cfg : PdcpConfig) (t : ℤ)
    (hinv : ∀ b c d l, cfg.security.cipher b c d (cfg.security.cipher b c d l) = l)
    (evs : List LinkEvent) (hw : Along (linkStep cfg t) (InWindow cfg) {} evs) (l : Link)
    (outs : List Output) (hrun : run (linkStep cfg t) {} evs = .ok (l, outs))
    (hlen : l.sent.length < 2 ^ 32 - cfg.windowSize) :
    (delivered outs).Sublist l.sent ∧ CountSorted l.receiver.rxList ∧
      ∀ s ∈ l.receiver.rxList, l.receiver.rxDeliv < s.count ∧ s.count < l.receiver.rxNext := by
  have hI : l.sent.length < 2 ^ 32 → LinkInv cfg l outs :=
    history_invariant (J := fun _ l outs => l.sent.length < 2 ^ 32 → LinkInv cfg l outs)
      (fun _ => ⟨rfl, rfl, rxInv_new⟩) (fun _ _ _ _ _ _ _ hI hw hs => linkInv_step hinv hI hw hs) hw hrun
  have hrx := (hI (by omega)).rx
  refine ⟨hrx.done.trans (List.take_sublist _ _), hrx.sorted, fun s hs => ?_⟩
  exact ⟨(hrx.counts s hs).1, hrx.below s hs⟩

theorem exampleSecurity_involution (b : ℤ) (c d : ℕ) (l : List UInt8) :
    exampleSecurity.cipher b c d (exampleSecurity.cipher b c d l) = l := by
  simp only [exampleSecurity, List.map_map]
  exact List.map_id'' (fun x => by simp [UInt8.xor_assoc]) l

instance (cfg : PdcpConfig) (l : Link) (ev : LinkEvent) : Decidable (InWindow cfg l ev) :=
  match ev with
  | .arrive _ => inferInstanceAs (Decidable (_ → _))
  | .send _ _ => .isTrue trivial
  | .setTime _ => .isTrue trivial

def swappedPdus : List LinkEvent :=
  [.send [1] 0, .send [2] 1, .send [3] 2, .setTime 5, .arrive 2, .arrive 1, .arrive 1,
    .setTime 200, .arrive 0]

/-- Three SDUs of which the first one is lost at first and comes too late. -/
theorem delivery_in_order_swapped : ∃ l outs,
    run (linkStep (exampleCfg true) 100) {} swappedPdus = .ok (l, outs) ∧
      delivered outs = [[2], [3]] ∧ (delivered outs).Sublist l.sent := by
  refine ⟨_, _, rfl, by decide +kernel, ?_⟩
  refine (delivery_in_order (exampleCfg true) 100 exampleSecurity_involution swappedPdus ?_ _ _ rfl
    (by decide +kernel)).1
  exact along_of_check (c := fun l ev => decide (InWindow (exampleCfg true) l ev))
    (fun _ _ h => of_decide_eq_true h) (by decide +kernel)

end OaiCu.NrPdcp
