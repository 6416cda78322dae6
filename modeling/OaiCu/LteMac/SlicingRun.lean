import OaiCu.Lib.Buckets
import OaiCu.LteMac.Slicing
import Mathlib.Data.List.InsertIdx
import Mathlib.Data.List.TakeWhile

/-!
# The slices over a run

The loops over the map find out whether ranges overlap. As long as no call passes the end of the
map, and no new slice gets an identity whose low eight bits another slice has, the slices keep
pairwise different identities and disjoint ranges, and every UE is in the slice its entry of the
table gives.
-/

namespace OaiCu.LteMac

/-! ## The loops over the map -/

section Sweep

variable {size : ℕ} {test set : Bool} {rbMap rbMap' : ℕ → Bool}

theorem sweep_ok : ∀ {is : List ℕ} {rbMap : ℕ → Bool}, is.Pairwise (· < ·) →
    sweep size test set is rbMap = .ok rbMap' →
    (∀ i ∈ is, i < size) ∧ (test = true → ∀ i ∈ is, rbMap i = false) ∧
      ∀ j, rbMap' j = (rbMap j || set && decide (j ∈ is))
  | [], rbMap, _, h => by
      injection h with h
      subst h
      simp
  | i :: is, rbMap, hs, h => by
      rw [sweep] at h
      split at h
      · cases h
      rename_i hi
      split at h
      · cases h
      rename_i ht
      obtain ⟨hlt, hs⟩ := List.pairwise_cons.mp hs
      obtain ⟨hin, hfree, hset⟩ := sweep_ok hs h
      refine ⟨List.forall_mem_cons.mpr ⟨by omega, hin⟩, fun htest => ?_, fun j => ?_⟩
      · refine List.forall_mem_cons.mpr ⟨by simpa [htest] using ht, fun j hj => ?_⟩
        have hne : j ≠ i := (hlt j hj).ne'
        have := hfree htest j hj
        split at this
        · rwa [Function.update_of_ne hne] at this
        · exact this
      · rw [hset]
        cases set
        · simp
        · by_cases hj : j = i
          · simp [hj]
          · simp [hj]

theorem sweep_outside : ∀ {is : List ℕ} {rbMap : ℕ → Bool}, is.Pairwise (· < ·) →
    sweep size test set is rbMap = .error .outside →
    (∃ i ∈ is, size ≤ i) ∧ (test = true → ∀ i ∈ is, i < size → rbMap i = false)
  | [], rbMap, _, h => by cases h
  | i :: is, rbMap, hs, h => by
      obtain ⟨hlt, hs⟩ := List.pairwise_cons.mp hs
      rw [sweep] at h
      split at h
      · rename_i hi
        refine ⟨⟨i, List.mem_cons_self, hi⟩, fun _ => List.forall_mem_cons.mpr ⟨by omega, ?_⟩⟩
        intro j hj hj'
        have := hlt j hj
        omega
      split at h
      · cases h
      rename_i hi ht
      obtain ⟨⟨j, hj, hout⟩, hfree⟩ := sweep_outside hs h
      refine ⟨⟨j, List.mem_cons_of_mem i hj, hout⟩, fun htest => ?_⟩
      refine List.forall_mem_cons.mpr ⟨fun _ => by simpa [htest] using ht, fun j hj hj' => ?_⟩
      have hne : j ≠ i := (hlt j hj).ne'
      have := hfree htest j hj hj'
      split at this
      · rwa [Function.update_of_ne hne] at this
      · exact this

/-- A loop that does not test finds no overlap. -/
theorem sweep_overlap : ∀ {is : List ℕ} {rbMap : ℕ → Bool},
    sweep size test set is rbMap = .error .overlap → test = true
  | [], rbMap, h => by cases h
  | i :: is, rbMap, h => by
      rw [sweep] at h
      split at h
      · cases h
      split at h
      · rename_i ht
        exact (Bool.and_eq_true_iff.mp ht).1
      · exact sweep_overlap h

/-- Two ranges without a common index. -/
def Apart (p q : StaticSliceParam) : Prop := ∀ i ∈ p.indices, i ∉ q.indices

theorem sweepAll_ok : ∀ {ps : List StaticSliceParam} {rbMap : ℕ → Bool},
    sweepAll size test ps rbMap = .ok rbMap' →
    (∀ p ∈ ps, ∀ i ∈ p.indices, i < size) ∧
      (test = true → ps.Pairwise Apart ∧ ∀ p ∈ ps, ∀ i ∈ p.indices, rbMap i = false) ∧
      ∀ j, rbMap' j = true ↔ rbMap j = true ∨ ∃ p ∈ ps, j ∈ p.indices
  | [], rbMap, h => by
      injection h with h
      subst h
      simp
  | p :: ps, rbMap, h => by
      rw [sweepAll] at h
      split at h
      · cases h
      rename_i m hm
      obtain ⟨hin, hfree, hset⟩ := sweep_ok p.indices_sorted hm
      obtain ⟨hins, hfrees, hsets⟩ := sweepAll_ok h
      have hm_iff : ∀ j, m j = true ↔ rbMap j = true ∨ j ∈ p.indices := fun j => by
        rw [hset, Bool.or_eq_true, Bool.true_and, decide_eq_true_eq]
      refine ⟨List.forall_mem_cons.mpr ⟨hin, hins⟩, fun htest => ?_, fun j => ?_⟩
      · obtain ⟨hpair, hmfree⟩ := hfrees htest
        have hnot : ∀ q ∈ ps, ∀ i ∈ q.indices, ¬ (rbMap i = true ∨ i ∈ p.indices) :=
          fun q hq i hi hc => by
            rw [← hm_iff, hmfree q hq i hi] at hc
            cases hc
        refine ⟨List.pairwise_cons.mpr ⟨fun q hq i hi hi' => ?_, hpair⟩,
          List.forall_mem_cons.mpr ⟨hfree htest, fun q hq i hi => ?_⟩⟩
        · exact hnot q hq i hi' (Or.inr hi)
        · exact Bool.not_eq_true _ ▸ fun hc => hnot q hq i hi (Or.inl hc)
      · rw [hsets, hm_iff, List.exists_mem_cons_iff, or_assoc]

theorem sweepAll_outside : ∀ {ps : List StaticSliceParam} {rbMap : ℕ → Bool},
    sweepAll size test ps rbMap = .error .outside →
    ∃ pre p post, ps = pre ++ p :: post ∧ (∃ i ∈ p.indices, size ≤ i) ∧
      (test = true → ∀ i ∈ p.indices, i < size → rbMap i = false ∧ ∀ q ∈ pre, i ∉ q.indices)
  | [], rbMap, h => by cases h
  | p :: ps, rbMap, h => by
      rw [sweepAll] at h
      split at h
      · rename_i hm
        injection h with h
        subst h
        obtain ⟨hout, hfree⟩ := sweep_outside p.indices_sorted hm
        exact ⟨[], p, ps, rfl, hout, fun htest i hi hi' => ⟨hfree htest i hi hi', by simp⟩⟩
      · rename_i m hm
        obtain ⟨pre, q, post, rfl, hout, hfree⟩ := sweepAll_outside h
        refine ⟨p :: pre, q, post, rfl, hout, fun htest i hi hi' => ?_⟩
        obtain ⟨hmi, hpre⟩ := hfree htest i hi hi'
        rw [(sweep_ok p.indices_sorted hm).2.2, Bool.or_eq_false_iff, Bool.true_and,
          decide_eq_false_iff_not] at hmi
        exact ⟨hmi.1, List.forall_mem_cons.mpr ⟨hmi.2, hpre⟩⟩

theorem sweepAll_overlap : ∀ {ps : List StaticSliceParam} {rbMap : ℕ → Bool},
    sweepAll size test ps rbMap = .error .overlap → test = true
  | [], rbMap, h => by cases h
  | p :: ps, rbMap, h => by
      rw [sweepAll] at h
      split at h
      · rename_i hm
        injection h with h
        subst h
        exact sweep_overlap hm
      · exact sweepAll_overlap h

end Sweep

/-! ## The array of slices -/

theorem map_modify_of_eq {α β : Type*} {g : α → β} {f : α → α} (hf : ∀ x, g (f x) = g x)
    (l : List α) (k : ℕ) : (l.modify k f).map g = l.map g := by
  refine List.ext_getElem? fun j => ?_
  rw [List.getElem?_map, List.getElem?_modify, List.getElem?_map]
  cases l[j]? with
  | none => rfl
  | some x =>
      simp only [Option.map_eq_map, Option.map_some]
      split
      · rw [hf]
      · rfl

theorem map_modify_of_comm {α β : Type*} {g : α → β} {f : α → α} {f' : β → β}
    (hf : ∀ x, g (f x) = f' (g x)) (l : List α) (k : ℕ) :
    (l.modify k f).map g = (l.map g).modify k f' := by
  refine List.ext_getElem? fun j => ?_
  rw [List.getElem?_map, List.getElem?_modify, List.getElem?_modify, List.getElem?_map]
  cases l[j]? with
  | none => rfl
  | some x =>
      simp only [Option.map_eq_map, Option.map_some]
      split
      · rw [hf]
      · rfl

/-- `_exists_slice` finds the slice of that identity. -/
theorem existsSlice_some {s : List Slice} {id : ℤ} {index : ℕ}
    (h : existsSlice s id = some index) : ∃ x, s[index]? = some x ∧ (x.id : ℤ) = id := by
  obtain ⟨hlt, hid, -⟩ := List.findIdx?_eq_some_iff_getElem.mp h
  exact ⟨s[index], List.getElem?_eq_getElem hlt, by simpa using hid⟩

theorem existsSlice_none {s : List Slice} {id : ℤ} :
    existsSlice s id = none ↔ ∀ x ∈ s, (x.id : ℤ) ≠ id := by
  simp [existsSlice, List.findIdx?_eq_none_iff]

/-- With pairwise different identities the check goes through the ranges the slices have after the
modification. -/
theorem rangesWith_eq {s : List Slice} {id : ℤ} {index : ℕ} (hids : (s.map (·.id)).Nodup)
    (h : existsSlice s id = some index) (label : Option String) (algo : Option SchedAlgo)
    (p : Option StaticSliceParam) :
    (s.modify index (·.mod label algo p)).map (·.algoData) = rangesWith s id p := by
  obtain ⟨x, hx, hid⟩ := existsSlice_some h
  refine List.ext_getElem? fun j => ?_
  rw [rangesWith, List.getElem?_map, List.getElem?_modify, List.getElem?_map]
  cases hj : s[j]? with
  | none => rfl
  | some y =>
      simp only [Option.map_eq_map, Option.map_some]
      by_cases hij : index = j
      · subst hij
        obtain rfl : x = y := Option.some.inj (hx.symm.trans hj)
        rw [if_pos rfl, if_pos hid]
        rfl
      · have hne : (y.id : ℤ) ≠ id := fun hy => hij <| by
          obtain ⟨hi', rfl⟩ := List.getElem?_eq_some_iff.mp hx
          obtain ⟨hj', rfl⟩ := List.getElem?_eq_some_iff.mp hj
          have : s[index].id = s[j].id := by omega
          have hindex : index < (s.map (·.id)).length := by simpa using hi'
          have hlt : j < (s.map (·.id)).length := by simpa using hj'
          have hids' : (s.map (·.id))[index] = (s.map (·.id))[j] := by simpa using this
          exact hids.getElem_inj_iff.mp hids'
        rw [if_neg hij, if_neg hne]

/-- The UEs of the slices. -/
def buckets (si : SliceInfo) : List (List ℕ) := si.s.map (·.ues)

/-- Only the UEs of the slices and the table change. -/
def SameSlices (si si' : SliceInfo) : Prop :=
  si'.s.map (·.id) = si.s.map (·.id) ∧ si'.s.map (·.algoData) = si.s.map (·.algoData)

theorem SameSlices.num_eq {si si' : SliceInfo} (h : SameSlices si si') : si'.num = si.num := by
  simpa [SliceInfo.num] using congrArg List.length h.1

theorem SameSlices.trans {si si' si'' : SliceInfo} (h : SameSlices si si')
    (h' : SameSlices si' si'') : SameSlices si si'' :=
  ⟨h'.1.trans h.1, h'.2.trans h.2⟩

/-- `f` does nothing to a slice but `g` to the list of its UEs. -/
structure OnUes (f : Slice → Slice) (g : List ℕ → List ℕ) : Prop where
  id_eq : ∀ x, (f x).id = x.id
  algoData_eq : ∀ x, (f x).algoData = x.algoData
  ues_eq : ∀ x, (f x).ues = g x.ues

theorem onUes_addUe (ueId : ℕ) : OnUes (·.addUe ueId) (· ++ [ueId]) :=
  ⟨fun _ => rfl, fun _ => rfl, fun _ => rfl⟩

theorem onUes_removeUe (ueId : ℕ) : OnUes (·.removeUe ueId) fun l => l.erase ueId :=
  ⟨fun _ => rfl, fun _ => rfl, fun _ => rfl⟩

theorem OnUes.sameSlices {f : Slice → Slice} {g : List ℕ → List ℕ} (h : OnUes f g)
    (si : SliceInfo) (k : ℕ) (assoc : ℕ → ℕ) : SameSlices si ⟨si.s.modify k f, assoc⟩ :=
  ⟨map_modify_of_eq h.id_eq si.s k, map_modify_of_eq h.algoData_eq si.s k⟩

theorem OnUes.buckets_eq {f : Slice → Slice} {g : List ℕ → List ℕ} (h : OnUes f g)
    (s : List Slice) (k : ℕ) (assoc : ℕ → ℕ) :
    buckets ⟨s.modify k f, assoc⟩ = (buckets ⟨s, assoc⟩).modify k g :=
  map_modify_of_comm h.ues_eq s k

section Ues

variable {si : SliceInfo} {P : ℕ → Prop}

theorem buckets_length (si : SliceInfo) : (buckets si).length = si.num := List.length_map _

theorem buckets_getElem? (si : SliceInfo) (j : ℕ) :
    (buckets si)[j]? = si.s[j]?.map (·.ues) := List.getElem?_map

theorem slicingAddUe_located (h : Buckets.Located (buckets si) si.ueAssocSlice P)
    (hnum : 0 < si.num) {ueId : ℕ} (hue : ¬ P ueId) :
    ∃ si', slicingAddUe si ueId = .ok si' ∧ SameSlices si si' ∧
      Buckets.Located (buckets si') si'.ueAssocSlice fun u => P u ∨ u = ueId := by
  refine ⟨_, if_neg hnum.ne', (onUes_addUe ueId).sameSlices si 0 _, ?_⟩
  rw [(onUes_addUe ueId).buckets_eq]
  exact h.add hue (by rwa [buckets_length])

theorem moveUe_located (h : Buckets.Located (buckets si) si.ueAssocSlice P)
    (hnum : si.num ≤ maxStaticSlices) {ueId idx : ℕ} (hue : P ueId) (hidx : idx < si.num) :
    ∃ si', moveUe si ueId idx = .ok si' ∧ SameSlices si si' ∧
      buckets si' = ((buckets si).modify (si.ueAssocSlice ueId) fun l => l.erase ueId).modify idx
        (· ++ [ueId]) ∧
      Buckets.Located (buckets si') si'.ueAssocSlice P := by
  have hlt : si.ueAssocSlice ueId < si.num := buckets_length si ▸ h.lt ueId hue
  have hmod : idx % 256 = idx := Nat.mod_eq_of_lt (by rw [maxStaticSlices] at hnum; omega)
  have hb : ∀ assoc, buckets ⟨(si.s.modify (si.ueAssocSlice ueId) (·.removeUe ueId)).modify idx
      (·.addUe ueId), assoc⟩ =
      ((buckets si).modify (si.ueAssocSlice ueId) fun l => l.erase ueId).modify idx
        (· ++ [ueId]) := by
    intro assoc
    rw [(onUes_addUe ueId).buckets_eq, (onUes_removeUe ueId).buckets_eq]
    rfl
  refine ⟨_, if_neg (by omega), ?_, hb _, ?_⟩
  · exact ((onUes_removeUe ueId).sameSlices si _ si.ueAssocSlice).trans
      ((onUes_addUe ueId).sameSlices _ idx _)
  · rw [hb, hmod]
    exact h.move hue (by rwa [buckets_length])

theorem slicingRemoveUe_located (h : Buckets.Located (buckets si) si.ueAssocSlice P) {ueId : ℕ}
    (hue : P ueId) :
    ∃ si', slicingRemoveUe si ueId = .ok si' ∧ SameSlices si si' ∧
      Buckets.Located (buckets si') si'.ueAssocSlice fun u => P u ∧ u ≠ ueId := by
  have hlt : si.ueAssocSlice ueId < si.s.length := (h.lt ueId hue).trans_eq (buckets_length si)
  have hmem : ueId ∈ si.s[si.ueAssocSlice ueId].ues :=
    (h.mem_iff _ _ (by rw [buckets_getElem?, List.getElem?_eq_getElem hlt]; rfl) ueId).mpr
      ⟨hue, rfl⟩
  refine ⟨⟨si.s.modify (si.ueAssocSlice ueId) (·.removeUe ueId),
    Function.update si.ueAssocSlice ueId 255⟩, ?_, (onUes_removeUe ueId).sameSlices si _ _, ?_⟩
  · rw [slicingRemoveUe, List.getElem?_eq_getElem hlt]
    exact if_neg (not_not.mpr hmem)
  · rw [(onUes_removeUe ueId).buckets_eq]
    exact (h.del ueId).congr (fun _ => Iff.rfl) fun u hu => Function.update_of_ne hu.2 _ _

/-- The loop moves all UEs of the slice to the default slice. -/
theorem drain_located {idx : ℕ} (hidx : idx ≠ 0) : ∀ (fuel : ℕ) {si : SliceInfo},
    Buckets.Located (buckets si) si.ueAssocSlice P → si.num ≤ maxStaticSlices →
    ∀ b, (buckets si)[idx]? = some b → b.length ≤ fuel →
    ∃ si', drain idx fuel si = .ok si' ∧ SameSlices si si' ∧ (buckets si')[idx]? = some [] ∧
      Buckets.Located (buckets si') si'.ueAssocSlice P
  | fuel, si, h, hnum, [], hb, _ => by
      refine ⟨si, ?_, ⟨rfl, rfl⟩, hb, h⟩
      rw [drain, ← buckets_getElem?, hb]
      rfl
  | 0, si, h, hnum, ueId :: b, hb, hlen => by simp at hlen
  | fuel + 1, si, h, hnum, ueId :: b, hb, hlen => by
      obtain ⟨hue, hloc⟩ := (h.mem_iff idx _ hb ueId).mp List.mem_cons_self
      have hidxlt : idx < si.num := buckets_length si ▸ (List.getElem?_eq_some_iff.mp hb).1
      obtain ⟨si₁, h₁, hsame, hbuckets, hlocated⟩ :=
        moveUe_located h hnum hue (show 0 < si.num by omega)
      have hb₁ : (buckets si₁)[idx]? = some b := by
        rw [hbuckets, List.getElem?_modify_ne _ _ hidx.symm, hloc, List.getElem?_modify_eq, hb]
        simp
      obtain ⟨si₂, h₂, hsame₂, hempty, hlocated₂⟩ := drain_located hidx fuel hlocated
        (hsame.num_eq.trans_le hnum) b hb₁ (by simpa using hlen)
      refine ⟨si₂, ?_, hsame.trans hsame₂, hempty, hlocated₂⟩
      rw [drain, ← buckets_getElem?, hb]
      simp only [Option.bind_some, List.head?_cons, h₁, h₂]

end Ues

/-! ## Runs -/

/-- The slices scanned before the one of identity `id`; all of them if there is none. -/
def slicesBefore (s : List Slice) (id : ℤ) : List Slice := s.takeWhile fun x => (x.id : ℤ) ≠ id

/-- The range is refused before the end of the map is passed. -/
def RefusedInside (v : Link) (s : List Slice) (id : ℤ) (p : StaticSliceParam) : Prop :=
  p.posHigh < p.posLow + v.gap ∨
    ((∀ x ∈ s, (x.id : ℤ) ≠ id) ∧ maxStaticSlices ≤ s.length) ∨
    ∃ x ∈ slicesBefore s id, ∃ i ∈ p.indices, i < v.mapSize ∧ i ∈ x.algoData.indices

instance (v : Link) (s : List Slice) (id : ℤ) (p : StaticSliceParam) :
    Decidable (RefusedInside v s id p) := by
  unfold RefusedInside
  infer_instance

/-- A range ends inside the map or is refused before, and a new slice is given an identity whose
low eight bits are free. -/
def Mac.Meets (v : Link) (m : Mac) : Call → Prop
  | .addmod id _ algo (some p) fresh =>
      (p.posHigh < v.mapSize ∨ RefusedInside v m.slices.s id p) ∧
        ((∀ x ∈ m.slices.s, (x.id : ℤ) ≠ id) → (∀ x ∈ m.slices.s, (x.id : ℤ) ≠ id % 256) ∨
          RefusedInside v m.slices.s id p ∨ algo = none ∨ fresh = false)
  | _ => True

/-- What is promised of the slices: different identities, disjoint ranges, and each UE in exactly
the slice its entry of the table gives. -/
structure Mac.Consistent (m : Mac) : Prop where
  ids : m.slices.s.Pairwise fun x y => x.id ≠ y.id
  ranges : m.slices.s.Pairwise fun x y => Apart x.algoData y.algoData
  ues : ∀ u ∈ m.ues, m.slices.ueAssocSlice u < m.slices.num ∧
    ∀ (j : ℕ) (x : Slice), m.slices.s[j]? = some x → (u ∈ x.ues ↔ j = m.slices.ueAssocSlice u)

/-- The sequence of calls does what is promised: nothing goes wrong but that a UE is moved to no
slice, the slices are consistent, and calls that returned a negative code changed nothing. -/
def Right (v : Link) (maxMobiles : ℕ) (m : Mac) (calls : List Call) : Prop :=
  (∀ e, Machine.run (Mac.step v maxMobiles) m calls = .error e → e = .badIndex) ∧
  ∀ m' out, Machine.run (Mac.step v maxMobiles) m calls = .ok (m', out) →
    m'.Consistent ∧ ∀ r ∈ out, r.code < 0 → r.after = r.before

/-- The invariant of a run. -/
structure Mac.Inv (v : Link) (maxMobiles : ℕ) (m : Mac) : Prop where
  pos : 0 < m.slices.num
  num_le : m.slices.num ≤ maxStaticSlices
  ids : (m.slices.s.map (·.id)).Nodup
  inside : ∀ p ∈ m.slices.s.map (·.algoData), ∀ i ∈ p.indices, i < v.mapSize
  ranges : (m.slices.s.map (·.algoData)).Pairwise Apart
  located : Buckets.Located (buckets m.slices) m.slices.ueAssocSlice (· ∈ m.ues)
  ues_lt : ∀ u ∈ m.ues, u < maxMobiles
  nodup : m.ues.Nodup

section Run

variable {v : Link} {maxMobiles : ℕ} {m : Mac}

theorem Mac.Inv.consistent (h : m.Inv v maxMobiles) : m.Consistent where
  ids := List.pairwise_map.mp h.ids
  ranges := List.pairwise_map.mp h.ranges
  ues u hu := by
    obtain ⟨hlt, hmem⟩ := h.located.exactly hu
    refine ⟨buckets_length m.slices ▸ hlt, fun j x hx => hmem j x.ues ?_⟩
    rw [buckets_getElem?, hx]
    rfl

theorem Mac.Inv.init (v : Link) (maxMobiles : ℕ) (bw : Bandwidth) (algo : SchedAlgo) :
    (Mac.init v bw algo).Inv v maxMobiles where
  pos := Nat.one_pos
  num_le := by
    show 1 ≤ 4
    omega
  ids := List.nodup_singleton _
  inside p hp i hi := by
    obtain rfl := List.mem_singleton.mp hp
    have := (StaticSliceParam.mem_indices.mp hi).2
    cases v <;> cases bw <;> simp [Link.carrier, toRbg, toPrb, Link.mapSize] at this ⊢ <;> omega
  ranges := List.pairwise_singleton _ _
  located := by
    refine ⟨fun j b hb => ?_, fun j b hb u => ?_, fun u hu => (List.not_mem_nil hu).elim⟩
    · obtain rfl : b = [] := List.mem_singleton.mp (List.mem_of_getElem? hb)
      exact List.nodup_nil
    · obtain rfl : b = [] := List.mem_singleton.mp (List.mem_of_getElem? hb)
      exact iff_of_false List.not_mem_nil fun hu => List.not_mem_nil hu.1
  ues_lt u hu := (List.not_mem_nil hu).elim
  nodup := List.nodup_nil

/-- A call that only moves UEs keeps the invariant. -/
theorem Mac.Inv.of_same (h : m.Inv v maxMobiles) {si : SliceInfo} {ues : List ℕ}
    (hsame : SameSlices m.slices si)
    (hlocated : Buckets.Located (buckets si) si.ueAssocSlice (· ∈ ues))
    (hlt : ∀ u ∈ ues, u < maxMobiles) (hnodup : ues.Nodup) :
    Mac.Inv v maxMobiles ⟨si, ues⟩ where
  pos := hsame.num_eq.symm ▸ h.pos
  num_le := hsame.num_eq.symm ▸ h.num_le
  ids := hsame.1.symm ▸ h.ids
  inside := hsame.2.symm ▸ h.inside
  ranges := hsame.2.symm ▸ h.ranges
  located := hlocated
  ues_lt := hlt
  nodup := hnodup

theorem mem_slicesBefore {s : List Slice} {id : ℤ} {x y : Slice} {k : ℕ}
    (hx : x ∈ slicesBefore s id) (hy : s[k]? = some y) (hid : (y.id : ℤ) = id) :
    ∃ j < k, s[j]? = some x ∧ (x.id : ℤ) ≠ id := by
  have hall : ∀ z ∈ slicesBefore s id, (z.id : ℤ) ≠ id := fun z hz => by
    simpa using List.mem_takeWhile_imp hz
  obtain ⟨j, hj, rfl⟩ := List.getElem_of_mem hx
  have hget := List.prefix_iff_getElem?.mp
    (List.takeWhile_prefix (l := s) fun x => (x.id : ℤ) ≠ id)
  refine ⟨j, ?_, hget j hj, hall _ hx⟩
  by_contra hkj
  have hk : k < (slicesBefore s id).length := by omega
  rw [hget k hk] at hy
  exact hall y (Option.some.inj hy ▸ List.getElem_mem hk) hid

/-- The check for a modification stays inside the map. -/
theorem rangesWith_inside (hin : ∀ p ∈ m.slices.s.map (·.algoData), ∀ i ∈ p.indices, i < v.mapSize)
    {id : ℤ} {p : Option StaticSliceParam} (hp : ∀ q, p = some q → q.posLow + v.gap ≤ q.posHigh ∧
      (q.posHigh < v.mapSize ∨ RefusedInside v m.slices.s id q)) :
    sweepAll v.mapSize true (rangesWith m.slices.s id p) (fun _ => false) ≠
      .error .outside := by
  intro hsweep
  obtain ⟨pre, q, post, heq, ⟨i, hi, hout⟩, hfree⟩ := sweepAll_outside hsweep
  have hk : (rangesWith m.slices.s id p)[pre.length]? = some q := by
    rw [heq, List.getElem?_append_right le_rfl, Nat.sub_self]
    rfl
  rw [rangesWith, List.getElem?_map, Option.map_eq_some_iff] at hk
  obtain ⟨x, hx, hq⟩ := hk
  have hold : q ≠ x.algoData := fun hqx => by
    have := hin x.algoData (List.mem_map_of_mem (List.mem_of_getElem? hx)) i (hqx ▸ hi)
    omega
  split at hq
  · rename_i hid
    cases p with
    | none => exact hold hq.symm
    | some r =>
        obtain rfl : r = q := hq
        obtain ⟨hgap, hmeets⟩ := hp r rfl
        have hle := (StaticSliceParam.mem_indices.mp hi).2
        rcases hmeets with hlt | hshort | ⟨hnew, -⟩ | ⟨y, hy, n, hn, hnlt, hny⟩
        · omega
        · omega
        · exact hnew x (List.mem_of_getElem? hx) hid
        · obtain ⟨j, hj, hget, hne⟩ := mem_slicesBefore hy hx hid
          refine (hfree rfl n hn hnlt).2 y.algoData ?_ hny
          have hpre : (pre ++ r :: post)[j]? = some y.algoData := by
            rw [← heq, rangesWith, List.getElem?_map, hget, Option.map_some, if_neg hne]
          rw [List.getElem?_append_left hj] at hpre
          exact List.mem_of_getElem? hpre
  · exact hold hq.symm

/-- Among other identities only an overlap makes that a range is refused, if there is room for a
slice. -/
theorem RefusedInside.overlap {s : List Slice} {id : ℤ} {p : StaticSliceParam}
    (h : RefusedInside v s id p) (hgap : p.posLow + v.gap ≤ p.posHigh)
    (hnum : s.length < maxStaticSlices) :
    ∃ x ∈ s, ∃ i ∈ p.indices, i < v.mapSize ∧ i ∈ x.algoData.indices := by
  rcases h with hshort | ⟨-, hfull⟩ | ⟨x, hx, hi⟩
  · omega
  · omega
  · exact ⟨x, (List.takeWhile_prefix _).subset hx, hi⟩

/-- A modification keeps the invariant if the check was passed. -/
theorem Mac.Inv.modify (h : m.Inv v maxMobiles) {id : ℤ} {index : ℕ}
    (hindex : existsSlice m.slices.s id = some index) (label : Option String)
    (algo : Option SchedAlgo) {p : Option StaticSliceParam} {rbMap : ℕ → Bool}
    (hsweep : sweepAll v.mapSize true (rangesWith m.slices.s id p) (fun _ => false) =
      .ok rbMap) :
    Mac.Inv v maxMobiles { m with
      slices := { m.slices with s := m.slices.s.modify index (·.mod label algo p) } } := by
  have hids : (m.slices.s.modify index (·.mod label algo p)).map (·.id) =
      m.slices.s.map (·.id) :=
    map_modify_of_eq (f := fun x : Slice => x.mod label algo p) (fun _ => rfl) _ _
  have hues : (m.slices.s.modify index (·.mod label algo p)).map (·.ues) =
      m.slices.s.map (·.ues) :=
    map_modify_of_eq (f := fun x : Slice => x.mod label algo p) (fun _ => rfl) _ _
  have hnum : (m.slices.s.modify index (·.mod label algo p)).length = m.slices.s.length :=
    List.length_modify _ _ _
  have hranges := rangesWith_eq h.ids hindex label algo p
  obtain ⟨hin, hfree, -⟩ := sweepAll_ok hsweep
  exact
    { pos := h.pos.trans_eq hnum.symm
      num_le := hnum.trans_le h.num_le
      ids := hids.symm ▸ h.ids
      inside := hranges.symm ▸ hin
      ranges := hranges.symm ▸ (hfree rfl).1
      located := by
        have hl := h.located
        rw [buckets] at hl ⊢
        dsimp only
        rwa [hues]
      ues_lt := h.ues_lt
      nodup := h.nodup }

/-- A new slice keeps the invariant if the check was passed and its identity is free. -/
theorem Mac.Inv.append (h : m.Inv v maxMobiles) (hnum : m.slices.s.length < maxStaticSlices)
    {x : Slice} (hues : x.ues = []) (hid : ∀ y ∈ m.slices.s, y.id ≠ x.id)
    (hin : ∀ i ∈ x.algoData.indices, i < v.mapSize)
    (hapart : ∀ y ∈ m.slices.s, Apart y.algoData x.algoData) :
    Mac.Inv v maxMobiles { m with slices := { m.slices with s := m.slices.s ++ [x] } } where
  pos := by simp [SliceInfo.num]
  num_le := by
    simp only [SliceInfo.num, List.length_append, List.length_singleton]
    omega
  ids := by
    rw [List.map_append, List.map_singleton]
    refine List.nodup_append.mpr ⟨h.ids, List.nodup_singleton _, fun a ha b hb hab => ?_⟩
    obtain ⟨y, hy, rfl⟩ := List.mem_map.mp ha
    exact hid y hy (hab.trans (List.mem_singleton.mp hb))
  inside p hp := by
    rw [List.map_append, List.map_singleton, List.mem_append, List.mem_singleton] at hp
    rcases hp with hp | rfl
    · exact h.inside p hp
    · exact hin
  ranges := by
    rw [List.map_append, List.map_singleton]
    refine List.pairwise_append.mpr ⟨h.ranges, List.pairwise_singleton _ _, fun a ha b hb => ?_⟩
    obtain ⟨y, hy, rfl⟩ := List.mem_map.mp ha
    exact List.mem_singleton.mp hb ▸ hapart y hy
  located := by
    rw [buckets, List.map_append, List.map_singleton, hues]
    exact h.located.grow
  ues_lt := h.ues_lt
  nodup := h.nodup

/-- `addmod_static_slice_dl` and `addmod_static_slice_ul` where the range stays inside the map. -/
theorem addmod_spec (h : m.Inv v maxMobiles) {id : ℤ} {label : Option String}
    {algo : Option SchedAlgo} {p : Option StaticSliceParam} {fresh : Bool}
    (hmeets : m.Meets v (.addmod id label algo p fresh)) :
    ∃ si code, addmodStaticSlice v m.slices id label algo p fresh = .ok (si, code) ∧
      Mac.Inv v maxMobiles { m with slices := si } ∧ (code < 0 → si = m.slices) := by
  unfold addmodStaticSlice
  split
  · exact ⟨m.slices, -1, rfl, h, fun _ => rfl⟩
  rename_i hgap
  have hgap' : ∀ q, p = some q → q.posLow + v.gap ≤ q.posHigh := fun q hq => by
    subst hq
    simpa using hgap
  split
  · -- the slice there is
    rename_i index hindex
    split
    · rename_i hout
      refine absurd hout (rangesWith_inside h.inside fun q hq => ⟨hgap' q hq, ?_⟩)
      subst hq
      exact hmeets.1
    · exact ⟨m.slices, -33, rfl, h, fun _ => rfl⟩
    · rename_i rbMap hok
      exact ⟨_, _, rfl, h.modify hindex label algo hok, fun hneg => by omega⟩
  · -- a new slice
    rename_i hindex
    rw [existsSlice_none] at hindex
    cases p with
    | none => exact ⟨m.slices, -100, rfl, h, fun _ => rfl⟩
    | some p =>
        have hgap := hgap' p rfl
        dsimp only
        split
        · exact ⟨m.slices, -2, rfl, h, fun _ => rfl⟩
        rename_i hnum
        rw [SliceInfo.num, not_le] at hnum
        split
        · rename_i e hmark
          cases e with
          | outside =>
              obtain ⟨pre, q, post, heq, ⟨i, hi, hout⟩, -⟩ := sweepAll_outside hmark
              have := h.inside q (heq ▸ by simp) i hi
              omega
          | overlap => cases sweepAll_overlap hmark
        · rename_i rbMap hmark
          have htaken : ∀ x ∈ m.slices.s, ∀ i ∈ x.algoData.indices, rbMap i = true :=
            fun x hx i hi => ((sweepAll_ok hmark).2.2 i).mpr
              (Or.inr ⟨x.algoData, List.mem_map_of_mem hx, hi⟩)
          have hrefused : RefusedInside v m.slices.s id p →
              ¬ ∀ i ∈ p.indices, i < v.mapSize → rbMap i = false := by
            intro href hfree
            obtain ⟨x, hx, i, hi, hlt, hxi⟩ := href.overlap hgap hnum
            exact absurd (hfree i hi hlt) (by rw [htaken x hx i hxi]; decide)
          split
          · rename_i hout
            obtain ⟨⟨i, hi, hsize⟩, hfree⟩ := sweep_outside p.indices_sorted hout
            have hle := (StaticSliceParam.mem_indices.mp hi).2
            rcases hmeets.1 with hlt | href
            · omega
            · exact absurd (hfree rfl) (hrefused href)
          · exact ⟨m.slices, -3, rfl, h, fun _ => rfl⟩
          · rename_i rbMap' hok
            obtain ⟨hin, hfree, -⟩ := sweep_ok p.indices_sorted hok
            cases algo with
            | none => exact ⟨m.slices, -14, rfl, h, fun _ => rfl⟩
            | some algo =>
                dsimp only
                split
                · exact ⟨m.slices, -4, rfl, h, fun _ => rfl⟩
                rename_i hfresh
                refine ⟨_, _, rfl, h.append hnum rfl (fun y hy hid => ?_) hin ?_,
                  fun hneg => by omega⟩
                · rcases hmeets.2 hindex with hfreeId | href | halgo | hno
                  · refine hfreeId y hy ?_
                    have : 0 ≤ id % 256 := Int.emod_nonneg id (by decide)
                    dsimp only at hid
                    omega
                  · exact hrefused href fun i hi _ => hfree rfl i hi
                  · cases halgo
                  · exact hfresh (by simp [hno])
                · intro y hy i hi hpi
                  exact absurd (hfree rfl i hpi) (by rw [htaken y hy i hi]; decide)

/-- `remove_static_slice_dl` and `remove_static_slice_ul`. -/
theorem remove_spec (h : m.Inv v maxMobiles) (sliceIdx : ℕ) :
    ∃ si code, removeStaticSlice maxMobiles m.slices sliceIdx = .ok (si, code) ∧
      Mac.Inv v maxMobiles { m with slices := si } ∧ 0 ≤ code := by
  rw [removeStaticSlice]
  split
  · exact ⟨m.slices, 0, rfl, h, by decide⟩
  rename_i hidx
  cases hsr : m.slices.s[sliceIdx]? with
  | none =>
      refine ⟨m.slices, 0, ?_, h, by decide⟩
      rw [removeSlice, hsr]
  | some sr =>
      have hb : (buckets m.slices)[sliceIdx]? = some sr.ues := by
        rw [buckets_getElem?, hsr]
        rfl
      obtain ⟨si, hdrain, hsame, hempty, hlocated⟩ :=
        drain_located hidx sr.ues.length h.located h.num_le sr.ues hb le_rfl
      have hsub : (si.s.eraseIdx sliceIdx).Sublist si.s := List.eraseIdx_sublist _ _
      have hlt : sliceIdx < si.s.length :=
        (List.getElem?_eq_some_iff.mp hempty).1.trans_eq (buckets_length si)
      have hlen := List.length_eraseIdx_of_lt hlt
      have hnum := h.num_le
      rw [← hsame.num_eq, SliceInfo.num] at hnum
      refine ⟨_, 1, by simp only [removeSlice, hsr, hdrain]; rfl, ?_, by decide⟩
      exact
        { pos := by
            rw [SliceInfo.num]
            dsimp only
            omega
          num_le := by
            rw [SliceInfo.num]
            dsimp only
            omega
          ids := (hsame.1.symm ▸ h.ids).sublist (hsub.map _)
          inside := fun p hp => h.inside p (hsame.2 ▸ (hsub.map _).subset hp)
          ranges := (hsame.2.symm ▸ h.ranges).sublist (hsub.map _)
          located := by
            rw [buckets, ← List.eraseIdx_map]
            refine (hlocated.drop hempty).congr (fun _ => Iff.rfl) fun u hu => ?_
            simp only [shiftAssoc, h.ues_lt u hu, true_and]
          ues_lt := h.ues_lt
          nodup := h.nodup }

/-- A call keeps the invariant, and a negative code means that nothing changed. -/
theorem Mac.step_spec (h : m.Inv v maxMobiles) (c : Call) (hlegal : m.Legal maxMobiles c)
    (hmeets : m.Meets v c) :
    m.step v maxMobiles c = .error .badIndex ∨
      ∃ m' out, m.step v maxMobiles c = .ok (m', out) ∧ m'.Inv v maxMobiles ∧
        ∀ r ∈ out, r.code < 0 → r.after = r.before := by
  cases c with
  | addmod id label algo p fresh =>
      obtain ⟨si, code, heq, hinv, hneg⟩ := addmod_spec h hmeets
      refine Or.inr ⟨_, _, by rw [Mac.step, heq]; rfl, hinv, fun r hr => ?_⟩
      obtain rfl := List.mem_singleton.mp hr
      exact hneg
  | remove sliceIdx =>
      obtain ⟨si, code, heq, hinv, hcode⟩ := remove_spec h sliceIdx
      refine Or.inr ⟨_, _, by rw [Mac.step, heq]; rfl, hinv, fun r hr hneg => ?_⟩
      obtain rfl := List.mem_singleton.mp hr
      exact absurd hneg (Int.not_lt.mpr hcode)
  | addUe ueId =>
      obtain ⟨hlt, hue⟩ := hlegal
      obtain ⟨si, heq, hsame, hlocated⟩ := slicingAddUe_located h.located h.pos hue
      refine Or.inr ⟨_, _, by rw [Mac.step, heq]; rfl, ?_, fun _ hr => absurd hr List.not_mem_nil⟩
      refine h.of_same hsame (hlocated.congr (fun u => ?_) fun _ _ => rfl) (fun u hu => ?_) ?_
      · rw [List.mem_append, List.mem_singleton]
      · rcases List.mem_append.mp hu with hu | hu
        · exact h.ues_lt u hu
        · exact List.mem_singleton.mp hu ▸ hlt
      · refine List.nodup_append.mpr ⟨h.nodup, List.nodup_singleton _, fun a ha b hb hab => ?_⟩
        exact hue (List.mem_singleton.mp hb ▸ hab ▸ ha)
  | moveUe ueId idx =>
      rw [Mac.step, slicingMoveUe]
      split
      · exact Or.inl rfl
      rename_i hidx
      rw [not_not] at hidx
      split
      · have hlt : idx.toNat < m.slices.num := by omega
        obtain ⟨si, heq, hsame, -, hlocated⟩ := moveUe_located h.located h.num_le hlegal hlt
        refine Or.inr ⟨_, _, by rw [heq]; rfl, ?_, fun _ hr => absurd hr List.not_mem_nil⟩
        exact h.of_same hsame hlocated h.ues_lt h.nodup
      · exact Or.inr ⟨_, _, rfl, h, fun _ hr => absurd hr List.not_mem_nil⟩
  | removeUe ueId =>
      obtain ⟨si, heq, hsame, hlocated⟩ := slicingRemoveUe_located h.located hlegal
      refine Or.inr ⟨_, _, by rw [Mac.step, heq]; rfl, ?_, fun _ hr => absurd hr List.not_mem_nil⟩
      refine h.of_same hsame (hlocated.congr (fun u => ?_) fun _ _ => rfl) (fun u hu => ?_)
        (h.nodup.erase _)
      · rw [h.nodup.mem_erase_iff, and_comm]
      · exact h.ues_lt u (List.mem_of_mem_erase hu)

/-- From the invariant on, a sequence of calls that meet the condition does what is promised. -/
theorem Mac.Inv.right : ∀ {calls : List Call} {m : Mac}, m.Inv v maxMobiles →
    Machine.Along (Mac.step v maxMobiles) (fun m c => m.Legal maxMobiles c ∧ m.Meets v c) m calls →
    Right v maxMobiles m calls
  | [], m, h, _ => by
      refine ⟨nofun, fun m' out hrun => ?_⟩
      obtain ⟨rfl, rfl⟩ := Prod.mk.inj (Except.ok.inj hrun)
      exact ⟨h.consistent, fun _ hr => absurd hr List.not_mem_nil⟩
  | c :: calls, m, h, halong => by
      rcases Mac.step_spec h c halong.1.1 halong.1.2 with herr | ⟨m₁, out, hok, hinv, hneg⟩
      · have hrun : Machine.run (Mac.step v maxMobiles) m (c :: calls) = .error .badIndex := by
          rw [Machine.run, herr]
        refine ⟨fun e he => ?_, fun m' out' hr => ?_⟩
        · rw [hrun] at he
          exact (Except.error.inj he).symm
        · rw [hrun] at hr
          cases hr
      · obtain ⟨hfail, hdone⟩ := Mac.Inv.right hinv (halong.2 m₁ out hok)
        refine ⟨fun e he => hfail e ?_, fun m' out' hr => ?_⟩
        · rw [Machine.run, hok] at he
          dsimp only at he
          split at he
          · rename_i e' he'
            rw [he', Except.error.inj he]
          · cases he
        · obtain ⟨m₂, out₁, outs, hstep, hrest, rfl⟩ := Machine.run_cons hr
          obtain ⟨rfl, rfl⟩ := Prod.mk.inj (Except.ok.inj (hok.symm.trans hstep))
          obtain ⟨hcons, hall⟩ := hdone m' outs hrest
          refine ⟨hcons, fun r hr => ?_⟩
          rcases List.mem_append.mp hr with hr | hr
          · exact hneg r hr
          · exact hall r hr

end Run

/-- From one default slice on, every sequence of calls does what is promised along which no range
passes the end of the map and every new slice has an identity with free low eight bits. -/
theorem slices_right_along (v : Link) (bw : Bandwidth) (algo : SchedAlgo) (maxMobiles : ℕ)
    (calls : List Call)
    (h : Machine.Along (Mac.step v maxMobiles) (fun m c => m.Legal maxMobiles c ∧ m.Meets v c)
      (Mac.init v bw algo) calls) :
    Right v maxMobiles (Mac.init v bw algo) calls :=
  (Mac.Inv.init v maxMobiles bw algo).right h

instance (maxMobiles : ℕ) (m : Mac) : ∀ c, Decidable (m.Legal maxMobiles c)
  | .addmod .. => .isTrue trivial
  | .remove _ => .isTrue trivial
  | .addUe ueId => inferInstanceAs (Decidable (ueId < maxMobiles ∧ ueId ∉ m.ues))
  | .moveUe ueId _ => inferInstanceAs (Decidable (ueId ∈ m.ues))
  | .removeUe ueId => inferInstanceAs (Decidable (ueId ∈ m.ues))

instance (v : Link) (m : Mac) : ∀ c, Decidable (m.Meets v c)
  | .addmod id _ algo (some p) fresh => inferInstanceAs (Decidable
      ((p.posHigh < v.mapSize ∨ RefusedInside v m.slices.s id p) ∧
        ((∀ x ∈ m.slices.s, (x.id : ℤ) ≠ id) → (∀ x ∈ m.slices.s, (x.id : ℤ) ≠ id % 256) ∨
          RefusedInside v m.slices.s id p ∨ algo = none ∨ fresh = false)))
  | .addmod _ _ _ none _ => .isTrue trivial
  | .remove _ => .isTrue trivial
  | .addUe _ => .isTrue trivial
  | .moveUe _ _ => .isTrue trivial
  | .removeUe _ => .isTrue trivial

/-- Two slices are added, a UE goes to the second one, and the first one is removed. -/
theorem slices_right_along_moved :
    Right .dl 16 (Mac.init .dl .n25 ⟨some 7, none⟩)
      [.addmod 1 none (some ⟨some 8, none⟩) (some ⟨13, 16⟩) true,
        .addmod 2 (some "two") (some ⟨none, some 9⟩) (some ⟨17, 24⟩) true, .addUe 3, .moveUe 3 2,
        .addmod 2 none none (some ⟨14, 99⟩) true, .remove 1, .removeUe 3] :=
  slices_right_along .dl .n25 ⟨some 7, none⟩ 16 _
    (Machine.along_of_check (c := fun m c => decide (m.Legal 16 c ∧ m.Meets .dl c))
      (fun _ _ => of_decide_eq_true) (by decide))

/-- A range beyond the end of the map is looked up there. -/
theorem not_slices_right_outside :
    ¬ ∀ (v : Link) (bw : Bandwidth) (algo : SchedAlgo) (maxMobiles : ℕ) (calls : List Call),
      Machine.Along (Mac.step v maxMobiles) (fun m c => m.Legal maxMobiles c)
        (Mac.init v bw algo) calls → Right v maxMobiles (Mac.init v bw algo) calls := by
  intro h
  have hrun := (h .dl .n100 ⟨none, some 7⟩ 16
    [.addmod 1 none (some ⟨none, some 8⟩) (some ⟨25, 30⟩) true]
    ⟨trivial, fun _ _ _ => trivial⟩).1 .outside (by rfl)
  cases hrun

/-- The identity 256 is stored as that of the default slice. -/
example : (addmodStaticSlice .dl (staticInit .dl .n6 ⟨none, some 7⟩) 256 none
    (some ⟨none, some 8⟩) (some ⟨6, 7⟩) true).map (fun r => r.1.s.map (·.id)) = .ok [0, 0] := by
  rfl

end OaiCu.LteMac
