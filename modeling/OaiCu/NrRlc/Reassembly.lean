import Mathlib.Data.List.TakeWhile
import OaiCu.NrRlc.Pdu

/-!
# Reassembly of received segments

`sdu_full`, `sdu_delivered`, `sdu_has_missing_bytes` and `reassemble_and_deliver`
are the same code in `nr_rlc_entity_am.c` and `nr_rlc_entity_um.c`, up to what is
done to a segment once it is copied. They all walk the run of PDUs of one SN.
-/

namespace OaiCu.NrRlc

/-! ## The run of PDUs of one SN -/

/-- The list from the first PDU of `sn` on. -/
def fromSn (sn : ℤ) (l : List Pdu) : List Pdu := l.dropWhile (fun p => p.sn ≠ sn)

/-- The PDUs of `sn` at the front of `fromSn`. -/
def runSn (sn : ℤ) (l : List Pdu) : List Pdu := (fromSn sn l).takeWhile (fun p => p.sn = sn)

/-- The second loop of `sdu_full`, with the last byte seen so far. -/
def sduFullFrom (sn : ℤ) : ℤ → List Pdu → Bool
  | _, [] => false
  | lastByte, p :: l =>
      if p.sn = sn then
        if (p.so : ℤ) > lastByte + 1 then false
        else if p.isLast then true
        else sduFullFrom sn (max lastByte (p.so + p.size - 1)) l
      else false

/-- `sdu_full`: all the bytes of the SDU have been received, and it has not been
processed yet. -/
def sduFull (l : List Pdu) (sn : ℤ) : Bool :=
  match fromSn sn l with
  | [] => false
  | p :: l => if p.data.isNone then false else sduFullFrom sn (-1) (p :: l)

/-- `sdu_delivered`. -/
def sduDelivered (l : List Pdu) (sn : ℤ) : Bool :=
  match fromSn sn l with
  | [] => false
  | p :: _ => p.data.isNone

/-- `while (sdu_delivered(entity, sn)) sn = (sn + 1) % sn_modulus`. A delivered SN has a
PDU in the list, so the length of the list bounds the iterations. -/
def skipDelivered (snModulus : ℤ) (l : List Pdu) : ℕ → ℤ → ℤ
  | 0, sn => sn
  | fuel + 1, sn =>
      if sduDelivered l sn then skipDelivered snModulus l fuel ((sn + 1) % snModulus) else sn

/-- The second loop of `sdu_has_missing_bytes`. -/
def missingBytesFrom (sn : ℤ) : ℤ → List Pdu → Bool
  | _, [] => false
  | lastByte, p :: l =>
      if p.sn = sn then
        if (p.so : ℤ) > lastByte + 1 then true
        else missingBytesFrom sn (max lastByte (p.so + p.size - 1)) l
      else false

/-- `sdu_has_missing_bytes`: some byte before the last received one is missing. -/
def sduHasMissingBytes (l : List Pdu) (sn : ℤ) : Bool :=
  match fromSn sn l with
  | [] => false
  | p :: l => if p.data.isNone then false else missingBytesFrom sn (-1) (p :: l)

/-! ## `reassemble_and_deliver` -/

/-- The local variables of `reassemble_and_deliver`; `sdu` holds the first `so` bytes
of the buffer. -/
structure Reassembly where
  so : ℤ
  badSdu : Bool
  sdu : List UInt8
  copies : List Copy

/-- The `len` bytes at offset `src` of the data of a segment. What lies outside the
data is unspecified; zeros stand for it. -/
def readBytes (data : List UInt8) (src len : ℤ) : List UInt8 :=
  (List.range len.toNat).map fun i =>
    if 0 ≤ src + i then (data[(src + i).toNat]?).getD 0 else 0

/-- `len`: the bytes of the segment beyond the `so` bytes there are already. -/
def Reassembly.len (r : Reassembly) (pdu : Pdu) : ℤ := pdu.size - (r.so - pdu.so)

/-- The `memcpy` of the segment. -/
def Reassembly.copy (r : Reassembly) (pdu : Pdu) : Copy :=
  { dst := r.so, src := r.so - pdu.so, len := r.len pdu, size := pdu.size }

/-- One iteration of the reassembly loop. -/
def Reassembly.step (r : Reassembly) (pdu : Pdu) : Reassembly :=
  let len := r.len pdu
  let badSdu := r.badSdu || decide (r.so + len > nrSduMax)
  if !badSdu && decide (len > 0) then
    { so := r.so + len
      badSdu
      sdu := r.sdu ++ readBytes (pdu.data.getD []) (r.so - pdu.so) len
      copies := r.copies ++ [r.copy pdu] }
  else { r with badSdu }

/-- The reassembly loop over the segments of `sn`. -/
def reassemble (l : List Pdu) (sn : ℤ) : Reassembly :=
  (runSn sn l).foldl Reassembly.step { so := 0, badSdu := false, sdu := [], copies := [] }

/-- The calls made by `reassemble_and_deliver`. -/
def Reassembly.events (r : Reassembly) : List Event :=
  r.copies.map .memcpy ++ if r.badSdu then [] else [.deliverSdu r.sdu]

/-- The list after the loop has treated each segment of `sn` with `f`. -/
def mapRun (sn : ℤ) (f : Pdu → Pdu) (l : List Pdu) : List Pdu :=
  l.takeWhile (fun p => p.sn ≠ sn) ++ (runSn sn l).map f ++
    (fromSn sn l).dropWhile (fun p => p.sn = sn)

/-- The bytes that the loop takes off `rx_size`. -/
def runSize (l : List Pdu) (sn : ℤ) : ℤ := ((runSn sn l).map fun p => (p.size : ℤ)).sum

/-! ## The run of one SN in a list -/

theorem fromSn_cons_self {sn : ℤ} {p : Pdu} (h : p.sn = sn) (l : List Pdu) :
    fromSn sn (p :: l) = p :: l := by
  simp [fromSn, h]

theorem fromSn_cons_ne {sn : ℤ} {p : Pdu} (h : p.sn ≠ sn) (l : List Pdu) :
    fromSn sn (p :: l) = fromSn sn l := by
  simp [fromSn, h]

theorem fromSn_append_of_ne {sn : ℤ} {a : List Pdu} (h : ∀ p ∈ a, p.sn ≠ sn) (b : List Pdu) :
    fromSn sn (a ++ b) = fromSn sn b := by
  induction a with
  | nil => rfl
  | cons p a ih =>
      rw [List.cons_append, fromSn_cons_ne (h p List.mem_cons_self)]
      exact ih fun q hq => h q (List.mem_cons_of_mem _ hq)

/-- The list from the first PDU of `sn` on starts with a PDU of `sn`. -/
theorem sn_of_fromSn_eq_cons {sn : ℤ} {p : Pdu} : ∀ {l t : List Pdu}, fromSn sn l = p :: t →
    p.sn = sn
  | q :: l, t, h => by
      by_cases hq : q.sn = sn
      · rw [fromSn_cons_self hq] at h
        injection h with h1 _
        rw [← h1]
        exact hq
      · rw [fromSn_cons_ne hq] at h
        exact sn_of_fromSn_eq_cons h

theorem sduDelivered_cons_self {sn : ℤ} {p : Pdu} (h : p.sn = sn) (l : List Pdu) :
    sduDelivered (p :: l) sn = p.data.isNone := by
  rw [sduDelivered, fromSn_cons_self h]

theorem sduDelivered_cons_ne {sn : ℤ} {p : Pdu} (h : p.sn ≠ sn) (l : List Pdu) :
    sduDelivered (p :: l) sn = sduDelivered l sn := by
  rw [sduDelivered, sduDelivered, fromSn_cons_ne h]

theorem sduDelivered_append_of_ne {sn : ℤ} {a : List Pdu} (h : ∀ p ∈ a, p.sn ≠ sn)
    (b : List Pdu) : sduDelivered (a ++ b) sn = sduDelivered b sn := by
  rw [sduDelivered, sduDelivered, fromSn_append_of_ne h]

/-- A delivered SN has a PDU in the list. -/
theorem exists_of_sduDelivered {sn : ℤ} {l : List Pdu} (h : sduDelivered l sn = true) :
    ∃ p ∈ l, p.sn = sn ∧ p.data = none := by
  induction l with
  | nil => simp [sduDelivered, fromSn] at h
  | cons p l ih =>
      by_cases hp : p.sn = sn
      · rw [sduDelivered_cons_self hp] at h
        exact ⟨p, List.mem_cons_self, hp, by simpa using h⟩
      · rw [sduDelivered_cons_ne hp] at h
        obtain ⟨q, hq, hqs⟩ := ih h
        exact ⟨q, List.mem_cons_of_mem _ hq, hqs⟩

/-- A PDU with data, wherever it is inserted, delivers no SN. -/
theorem sduDelivered_orderedInsert {r : Pdu → Pdu → Prop} [DecidableRel r] {pdu : Pdu} {sn : ℤ}
    (hdata : pdu.data.isNone = false) {l : List Pdu} (h : sduDelivered l sn = false) :
    sduDelivered (l.orderedInsert r pdu) sn = false := by
  induction l with
  | nil =>
      by_cases hp : pdu.sn = sn
      · rw [List.orderedInsert_nil, sduDelivered_cons_self hp, hdata]
      · rw [List.orderedInsert_nil, sduDelivered_cons_ne hp, h]
  | cons q l ih =>
      rw [List.orderedInsert_cons]
      by_cases hq : q.sn = sn
      · split
        · by_cases hp : pdu.sn = sn
          · rw [sduDelivered_cons_self hp, hdata]
          · rw [sduDelivered_cons_ne hp, h]
        · rw [sduDelivered_cons_self hq] at h ⊢
          exact h
      · split
        · by_cases hp : pdu.sn = sn
          · rw [sduDelivered_cons_self hp, hdata]
          · rw [sduDelivered_cons_ne hp, h]
        · rw [sduDelivered_cons_ne hq] at h ⊢
          exact ih h

/-! ## `mapRun` touches neither the SNs nor the order -/

theorem runSn_sn {sn : ℤ} {l : List Pdu} {p : Pdu} (h : p ∈ runSn sn l) : p.sn = sn := by
  simpa using List.mem_takeWhile_imp h

theorem split_run (sn : ℤ) (l : List Pdu) :
    l = l.takeWhile (fun p => p.sn ≠ sn) ++ runSn sn l ++
      (fromSn sn l).dropWhile (fun p => p.sn = sn) := by
  have h1 : l.takeWhile (fun p => p.sn ≠ sn) ++ fromSn sn l = l := List.takeWhile_append_dropWhile
  have h2 : runSn sn l ++ (fromSn sn l).dropWhile (fun p => p.sn = sn) = fromSn sn l :=
    List.takeWhile_append_dropWhile
  rw [List.append_assoc, h2, h1]

/-- Freeing the data of one run keeps what depends on the position only. -/
theorem map_mapRun {α : Type*} (sn : ℤ) (g : Pdu → α) (f : Pdu → Pdu) (hf : ∀ p, g (f p) = g p)
    (l : List Pdu) : (mapRun sn f l).map g = l.map g := by
  conv_rhs => rw [split_run sn l]
  simp [mapRun, hf]

theorem sduDelivered_mapRun_ne {sn s : ℤ} {f : Pdu → Pdu} (hf : ∀ p, (f p).sn = p.sn)
    (hs : s ≠ sn) (l : List Pdu) : sduDelivered (mapRun sn f l) s = sduDelivered l s := by
  have hrun : ∀ p ∈ runSn sn l, p.sn ≠ s := fun p hp => by
    rw [runSn_sn hp]; exact hs.symm
  have hmap : ∀ p ∈ (runSn sn l).map f, p.sn ≠ s := by
    intro p hp
    obtain ⟨q, hq, rfl⟩ := List.mem_map.mp hp
    rw [hf]
    exact hrun q hq
  have key : ∀ (a b b' c : List Pdu), (∀ p ∈ b, p.sn ≠ s) → (∀ p ∈ b', p.sn ≠ s) →
      sduDelivered (a ++ b ++ c) s = sduDelivered (a ++ b' ++ c) s := by
    intro a b b' c hb hb'
    induction a with
    | nil =>
        rw [List.nil_append, List.nil_append, sduDelivered_append_of_ne hb,
          sduDelivered_append_of_ne hb']
    | cons p a ih =>
        by_cases hp : p.sn = s
        · simp only [List.cons_append, sduDelivered_cons_self hp]
        · simpa only [List.cons_append, sduDelivered_cons_ne hp] using ih
  conv_rhs => rw [split_run sn l]
  exact key _ _ _ _ hmap hrun

/-! ## When the copies stay in bounds

A segment that ends beyond `NR_SDU_MAX` stops all further copies, so only the
segments before it count. Among these the loop copies exactly the bytes between
`so`, the end of what it has, and the end of the segment: the read is inside the
segment as long as the segment does not start beyond `so`. -/

/-- The segments of the run that the loop looks at before it declares the SDU bad. -/
def goodRun (l : List Pdu) (sn : ℤ) : List Pdu :=
  (runSn sn l).takeWhile fun p => p.so + p.size ≤ nrSduMax

theorem step_of_bad {r : Reassembly} (p : Pdu) (h : r.badSdu = true) : r.step p = r := by
  rcases r with ⟨so, bad, sdu, copies⟩
  simp only at h
  simp [Reassembly.step, h]

theorem step_of_tooBig {r : Reassembly} {p : Pdu} (h : ¬ p.so + p.size ≤ nrSduMax) :
    (r.step p).badSdu = true ∧ (r.step p).copies = r.copies := by
  have hb : decide (r.so + r.len p > nrSduMax) = true :=
    decide_eq_true (by unfold Reassembly.len; omega)
  simp [Reassembly.step, hb]

theorem not_tooBig {r : Reassembly} {p : Pdu} (hbad : r.badSdu = false)
    (h : p.so + p.size ≤ nrSduMax) :
    (r.badSdu || decide (r.so + r.len p > nrSduMax)) = false := by
  rw [hbad, Bool.false_or]
  exact decide_eq_false (by unfold Reassembly.len; omega)

theorem step_of_fits {r : Reassembly} {p : Pdu} (hbad : r.badSdu = false)
    (h : p.so + p.size ≤ nrSduMax) (hlen : 0 < r.len p) :
    r.step p =
      { so := r.so + r.len p
        badSdu := false
        sdu := r.sdu ++ readBytes (p.data.getD []) (r.so - p.so) (r.len p)
        copies := r.copies ++ [r.copy p] } := by
  simp only [Reassembly.step, not_tooBig hbad h, Bool.not_false, Bool.true_and, gt_iff_lt, hlen,
    decide_true, if_true]

theorem step_of_covered {r : Reassembly} {p : Pdu} (hbad : r.badSdu = false)
    (h : p.so + p.size ≤ nrSduMax) (hlen : ¬ 0 < r.len p) : r.step p = r := by
  simp only [Reassembly.step, not_tooBig hbad h, gt_iff_lt, hlen, decide_false, Bool.and_false,
    Bool.false_eq_true, if_false]
  rw [← hbad]

theorem foldl_step_bad (l : List Pdu) (r : Reassembly) (h : r.badSdu = true) :
    l.foldl Reassembly.step r = r := by
  induction l with
  | nil => rfl
  | cons p l ih => rw [List.foldl_cons, step_of_bad p h, ih]

theorem step_copies_grow (r : Reassembly) (p : Pdu) : r.copies <+: (r.step p).copies := by
  unfold Reassembly.step
  simp only
  split
  · exact List.prefix_append _ _
  · exact List.prefix_refl _

theorem foldl_step_copies_grow (l : List Pdu) (r : Reassembly) :
    r.copies <+: (l.foldl Reassembly.step r).copies := by
  induction l generalizing r with
  | nil => exact List.prefix_refl _
  | cons p l ih => exact (step_copies_grow r p).trans (ih (r.step p))

/-- From a state with `so` bytes copied, the rest of the run is copied in bounds iff
none of the segments that are looked at starts beyond the bytes before it. -/
theorem foldl_step_inBounds_iff {sn : ℤ} : ∀ (l : List Pdu) (r : Reassembly),
    (∀ p ∈ l, p.sn = sn) → r.badSdu = false → 0 ≤ r.so →
    (∀ c ∈ r.copies, c.InBounds) →
    ((∀ c ∈ (l.foldl Reassembly.step r).copies, c.InBounds) ↔
      missingBytesFrom sn (r.so - 1) (l.takeWhile fun p => p.so + p.size ≤ nrSduMax) = false)
  | [], r, _, _, _, hc => by simpa [missingBytesFrom] using hc
  | p :: l, r, hsn, hbad, hso, hc => by
      have hp : p.sn = sn := hsn p List.mem_cons_self
      have hl : ∀ q ∈ l, q.sn = sn := fun q hq => hsn q (List.mem_cons_of_mem _ hq)
      rw [List.foldl_cons]
      by_cases hfit : p.so + p.size ≤ nrSduMax
      · rw [List.takeWhile_cons_of_pos (by simpa using hfit)]
        by_cases hgap : (p.so : ℤ) > r.so - 1 + 1
        · -- the copy of a segment that starts beyond `so` reads before the segment
          have hlen : 0 < r.len p := by unfold Reassembly.len; omega
          simp only [missingBytesFrom, if_pos hp, if_pos hgap, Bool.true_eq_false, iff_false]
          intro hall
          have hmem : r.copy p ∈ (l.foldl Reassembly.step (r.step p)).copies := by
            apply (foldl_step_copies_grow l (r.step p)).subset
            rw [step_of_fits hbad hfit hlen]
            exact List.mem_append_right _ List.mem_cons_self
          have hsrc := (hall _ hmem).1
          simp only [Reassembly.copy] at hsrc
          omega
        · simp only [missingBytesFrom, if_pos hp, if_neg hgap]
          by_cases hlen : 0 < r.len p
          · rw [step_of_fits hbad hfit hlen, foldl_step_inBounds_iff l _ hl rfl]
            · rw [show max (r.so - 1) ((p.so : ℤ) + p.size - 1) = r.so + r.len p - 1 by
                unfold Reassembly.len at *; omega]
            · simp only; omega
            · intro c hcm
              rcases List.mem_append.mp hcm with hcm | hcm
              · exact hc c hcm
              · rw [List.mem_singleton.mp hcm]
                have hfit' : (p.so : ℤ) + p.size ≤ nrSduMax := by exact_mod_cast hfit
                refine ⟨?_, ?_, hso, ?_⟩ <;> simp only [Reassembly.copy, Reassembly.len] <;> omega
          · rw [step_of_covered hbad hfit hlen, foldl_step_inBounds_iff l r hl hbad hso hc,
              show max (r.so - 1) ((p.so : ℤ) + p.size - 1) = r.so - 1 by
                unfold Reassembly.len at hlen; omega]
      · rw [List.takeWhile_cons_of_neg (by simpa using hfit),
          foldl_step_bad l _ (step_of_tooBig hfit).1, (step_of_tooBig hfit).2]
        simpa [missingBytesFrom] using hc

/-- The copies of `reassemble_and_deliver` are in bounds iff `sdu_has_missing_bytes`
finds no gap among the segments before the first one that is too big. -/
theorem reassemble_inBounds_iff (l : List Pdu) (sn : ℤ) :
    (∀ c ∈ (reassemble l sn).copies, c.InBounds) ↔
      missingBytesFrom sn (-1) (goodRun l sn) = false := by
  unfold reassemble goodRun
  rw [@foldl_step_inBounds_iff sn _ _ (fun p hp => runSn_sn hp) rfl (le_refl _) (by simp)]
  rfl

end OaiCu.NrRlc
