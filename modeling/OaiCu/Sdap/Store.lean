import Mathlib.Data.List.Nodup
import OaiCu.Sdap.Entity

/-!
# The SDAP entity store as a finite map

What the store is for: a map from the UE and the PDU session to the entity created for
them. `getEntity` searches by the UE only and `deleteEntity` unlinks an entity of the UE
only at the head of the list, so that the list is that map as long as a UE has one PDU
session and the UE deleted is the one at the head.
-/

namespace OaiCu.Sdap

open Machine

/-! ## What the map holds -/

/-- A creation was asked for of which `Φ` holds (with the calls before it), and its UE was
not deleted since. -/
def Since (Φ : List Call → NewArgs → Prop) (calls : List Call) : Prop :=
  ∃ pre a post, calls = pre ++ .new a :: post ∧ Φ pre a ∧ .delete a.rnti ∉ post

/-- An entity for the UE and the session was asked for and the UE was not deleted since. -/
def Live (calls : List Call) (rnti : UInt16) (pdusessionId : ℤ) : Prop :=
  Since (fun _ a => a.rnti = rnti ∧ a.pdusessionId = pdusessionId) calls

/-- The entity was created by one of the calls, when there was none for its UE and
session, and the UE was not deleted since. -/
def Created (calls : List Call) (entity : SdapEntity) : Prop :=
  Since (fun pre a => ∃ info outs, sdapRun pre = .ok (info, outs) ∧
    ¬ Live pre a.rnti a.pdusessionId ∧ entity = createEntity info.nextAddr a) calls

/-- The store is the finite map of the calls made so far. -/
structure FiniteMap (calls : List Call) : Prop where
  get : ∃ info outs, sdapRun calls = .ok (info, outs) ∧
    (∀ rnti pdusessionId entity, getEntity info rnti pdusessionId = some entity ↔
      Created calls entity ∧ entity.rnti = rnti ∧ entity.pdusessionId = pdusessionId) ∧
    (∀ rnti pdusessionId, (∃ entity, getEntity info rnti pdusessionId = some entity) ↔
      Live calls rnti pdusessionId) ∧
    ∀ rnti pdusessionId, (info.entityLlist.filter fun e =>
      e.rnti == rnti && e.pdusessionId == pdusessionId).length ≤ 1
  others : ∀ pre rnti, calls = pre ++ [.delete rnti] → ∀ info outs info' outs',
    sdapRun pre = .ok (info, outs) → sdapRun calls = .ok (info', outs') →
      ∀ e ∈ info.entityLlist, e.rnti ≠ rnti → e ∈ info'.entityLlist

/-- The calls that the store gets right: one session for each UE, and the UE to delete at
the head of the list. A repeated creation also reads the rules of its QFIs. -/
def Fits (info : SdapInfo) : Call → Prop
  | .new a =>
      (∀ e ∈ info.entityLlist, e.rnti = a.rnti → e.pdusessionId = a.pdusessionId) ∧
        ((∃ e ∈ info.entityLlist, e.rnti = a.rnti) →
          ∀ qfi ∈ a.mappedQfi2Add, (UInt8.ofInt qfi).toNat < sdapMaxQfi)
  | .delete rnti => ∃ e, info.entityLlist.head? = some e ∧ e.rnti = rnti

/-! ## Creations after one more call -/

section Since

variable {Φ : List Call → NewArgs → Prop} {calls : List Call}

theorem since_nil : ¬ Since Φ [] := by
  rintro ⟨pre, a, post, h, -⟩
  simp at h

theorem since_new {a : NewArgs} : Since Φ (calls ++ [.new a]) ↔ Since Φ calls ∨ Φ calls a := by
  constructor
  · rintro ⟨pre, b, post, h, hΦ, hd⟩
    rcases List.eq_nil_or_concat' post with rfl | ⟨post, c, rfl⟩
    · obtain ⟨rfl, heq⟩ := List.append_inj' h rfl
      injection heq with heq _
      injection heq with heq
      exact .inr (heq ▸ hΦ)
    · rw [← List.cons_append, ← List.append_assoc] at h
      obtain ⟨rfl, -⟩ := List.append_inj' h rfl
      exact .inl ⟨pre, b, post, rfl, hΦ, fun hm => hd (List.mem_append_left _ hm)⟩
  · rintro (⟨pre, b, post, rfl, hΦ, hd⟩ | hΦ)
    · refine ⟨pre, b, post ++ [.new a], by simp, hΦ, ?_⟩
      simpa using hd
    · exact ⟨calls, a, [], rfl, hΦ, by simp⟩

theorem since_delete {rnti : UInt16} :
    Since Φ (calls ++ [.delete rnti]) ↔ Since (fun pre a => Φ pre a ∧ a.rnti ≠ rnti) calls := by
  constructor
  · rintro ⟨pre, b, post, h, hΦ, hd⟩
    rcases List.eq_nil_or_concat' post with rfl | ⟨post, c, rfl⟩
    · obtain ⟨-, h⟩ := List.append_inj' h rfl
      cases h
    · rw [← List.cons_append, ← List.append_assoc] at h
      obtain ⟨rfl, hc⟩ := List.append_inj' h rfl
      injection hc with hc _
      refine ⟨pre, b, post, rfl, ⟨hΦ, fun hr => hd ?_⟩, fun hm => hd ?_⟩
      · simp [← hc, hr]
      · exact List.mem_append_left _ hm
  · rintro ⟨pre, b, post, rfl, ⟨hΦ, hr⟩, hd⟩
    refine ⟨pre, b, post ++ [.delete rnti], by simp, hΦ, ?_⟩
    rw [List.mem_append, List.mem_singleton]
    rintro (h | h)
    · exact hd h
    · injection h with h
      exact hr h

end Since

theorem qfi2drbMapUpdate_key (entity : SdapEntity) (qfi : UInt8) (drb : ℤ) (hasSdap : Bool) :
    (qfi2drbMapUpdate entity qfi drb hasSdap).rnti = entity.rnti ∧
      (qfi2drbMapUpdate entity qfi drb hasSdap).pdusessionId = entity.pdusessionId := by
  unfold qfi2drbMapUpdate
  split <;> exact ⟨rfl, rfl⟩

/-- The mapping rules of the new entity do not touch its key. -/
theorem createEntity_key (addr : ℕ) (a : NewArgs) :
    (createEntity addr a).rnti = a.rnti ∧
      (createEntity addr a).pdusessionId = a.pdusessionId := by
  have fold : ∀ (l : List ℤ) (e e' : SdapEntity), e' = l.foldl (fun entity qfi =>
      qfi2drbMapUpdate entity (UInt8.ofInt qfi) entity.defaultDrb a.hasSdap) e →
      e'.rnti = e.rnti ∧ e'.pdusessionId = e.pdusessionId := by
    intro l
    induction l with
    | nil =>
        rintro e _ rfl
        exact ⟨rfl, rfl⟩
    | cons q l ih =>
        intro e e' h
        obtain ⟨h1, h2⟩ := ih _ e' h
        rw [h1, h2]
        exact qfi2drbMapUpdate_key _ _ _ _
  rw [createEntity]
  split
  · exact fold _ _ _ rfl
  · exact ⟨rfl, rfl⟩

@[simp] theorem createEntity_rnti (addr : ℕ) (a : NewArgs) :
    (createEntity addr a).rnti = a.rnti :=
  (createEntity_key addr a).1

@[simp] theorem createEntity_pdusessionId (addr : ℕ) (a : NewArgs) :
    (createEntity addr a).pdusessionId = a.pdusessionId :=
  (createEntity_key addr a).2

theorem live_new {calls : List Call} {a : NewArgs} {rnti : UInt16} {id : ℤ} :
    Live (calls ++ [.new a]) rnti id ↔
      Live calls rnti id ∨ (a.rnti = rnti ∧ a.pdusessionId = id) :=
  since_new

theorem live_delete {calls : List Call} {r rnti : UInt16} {id : ℤ} :
    Live (calls ++ [.delete r]) rnti id ↔ Live calls rnti id ∧ rnti ≠ r := by
  rw [Live, since_delete]
  constructor
  · rintro ⟨pre, a, post, rfl, ⟨⟨rfl, hi⟩, hr⟩, hd⟩
    exact ⟨⟨pre, a, post, rfl, ⟨rfl, hi⟩, hd⟩, hr⟩
  · rintro ⟨⟨pre, a, post, rfl, ⟨rfl, hi⟩, hd⟩, hr⟩
    exact ⟨pre, a, post, rfl, ⟨⟨rfl, hi⟩, hr⟩, hd⟩

theorem created_new {calls : List Call} {a : NewArgs} {entity : SdapEntity} :
    Created (calls ++ [.new a]) entity ↔ Created calls entity ∨
      ∃ info outs, sdapRun calls = .ok (info, outs) ∧
        ¬ Live calls a.rnti a.pdusessionId ∧ entity = createEntity info.nextAddr a :=
  since_new

theorem created_delete {calls : List Call} {r : UInt16} {entity : SdapEntity} :
    Created (calls ++ [.delete r]) entity ↔ Created calls entity ∧ entity.rnti ≠ r := by
  rw [Created, since_delete]
  constructor
  · rintro ⟨pre, a, post, rfl, ⟨⟨info, outs, hr, hl, rfl⟩, ha⟩, hd⟩
    exact ⟨⟨pre, a, post, rfl, ⟨info, outs, hr, hl, rfl⟩, hd⟩, by simpa using ha⟩
  · rintro ⟨⟨pre, a, post, rfl, ⟨info, outs, hr, hl, rfl⟩, hd⟩, ha⟩
    exact ⟨pre, a, post, rfl, ⟨⟨info, outs, hr, hl, rfl⟩, by simpa using ha⟩, hd⟩

/-! ## What the functions do to the list -/

/-- The search stops at the first entity of the UE. -/
theorem seekEntity_eq (rnti : UInt16) : ∀ (entity : SdapEntity) (l : List SdapEntity),
    (entity :: l).find? (·.rnti == rnti) =
      if (seekEntity rnti entity l).rnti = rnti then some (seekEntity rnti entity l) else none
  | entity, [] => by
      rw [seekEntity]
      by_cases h : entity.rnti = rnti <;> simp [h]
  | entity, next :: l => by
      by_cases h : entity.rnti = rnti
      · simp [seekEntity, h]
      · rw [List.find?_cons_of_neg (by simpa using h), seekEntity_eq rnti next l, seekEntity,
          if_pos h]

theorem getEntity_iff {info : SdapInfo} {rnti : UInt16} {id : ℤ} {entity : SdapEntity} :
    getEntity info rnti id = some entity ↔
      info.entityLlist.find? (·.rnti == rnti) = some entity ∧ entity.pdusessionId = id := by
  rw [getEntity]
  split
  · rename_i h
    simp [h]
  · rename_i e next h
    rw [h, seekEntity_eq]
    by_cases hr : (seekEntity rnti e next).rnti = rnti
    · simp only [hr, true_and, if_true, Option.some.injEq]
      constructor
      · intro h
        split at h
        · rename_i hi
          injection h with h
          exact ⟨h, h ▸ hi⟩
        · cases h
      · rintro ⟨rfl, hi⟩
        rw [if_pos hi]
    · simp [hr]

/-- With one entity for each UE, the search finds every entity of the list. -/
theorem getEntity_iff_mem {info : SdapInfo} (hn : (info.entityLlist.map (·.rnti)).Nodup)
    {rnti : UInt16} {id : ℤ} {entity : SdapEntity} :
    getEntity info rnti id = some entity ↔
      entity ∈ info.entityLlist ∧ entity.rnti = rnti ∧ entity.pdusessionId = id := by
  rw [getEntity_iff, ← and_assoc]
  refine and_congr_left fun _ => ⟨fun h => ?_, fun ⟨hm, hr⟩ => ?_⟩
  · exact ⟨List.mem_of_find?_eq_some h, by simpa using List.find?_some h⟩
  · cases hf : info.entityLlist.find? (·.rnti == rnti) with
    | none => exact absurd hr (by simpa using List.find?_eq_none.1 hf entity hm)
    | some e =>
        have he : e.rnti = entity.rnti := by
          rw [hr]
          simpa using List.find?_some hf
        rw [List.inj_on_of_nodup_map hn (List.mem_of_find?_eq_some hf) hm he]

/-- The branch for a UE that is not at the head: the list stays as it is if the UE has an
entity, and loses its last entity, of another UE, if it has none. -/
theorem unlinkEntity_eq (rnti : UInt16) : ∀ (l : List SdapEntity) (prev : Option SdapEntity)
    (entity : SdapEntity), unlinkEntity rnti prev entity l =
      if ∃ e ∈ entity :: l, e.rnti = rnti then .ok (entity :: l)
      else if prev = none ∧ l = [] then .error .nullDereference
      else .ok (entity :: l).dropLast
  | [], none, entity => by
      by_cases h : entity.rnti = rnti <;> simp [unlinkEntity, h]
  | [], some _, entity => by
      by_cases h : entity.rnti = rnti <;> simp [unlinkEntity, h]
  | next :: l, prev, entity => by
      by_cases h : entity.rnti = rnti
      · simp [unlinkEntity, h]
      · rw [unlinkEntity, if_pos h, unlinkEntity_eq rnti l]
        by_cases hl : ∃ e ∈ next :: l, e.rnti = rnti
        · have hl' : ∃ e ∈ entity :: next :: l, e.rnti = rnti :=
            hl.imp fun e he => ⟨List.mem_cons_of_mem _ he.1, he.2⟩
          rw [if_pos hl, if_pos hl']
          rfl
        · have hl' : ¬ ∃ e ∈ entity :: next :: l, e.rnti = rnti := by
            rintro ⟨e, he, hr⟩
            rcases List.mem_cons.1 he with rfl | he
            · exact h hr
            · exact hl ⟨e, he, hr⟩
          rw [if_neg hl, if_neg hl', if_neg (by simp), if_neg (by simp)]
          rfl

theorem rule_ok {entity : SdapEntity} {qfi : UInt8} :
    (∃ r, entity.rule qfi = .ok r) ↔ qfi.toNat < sdapMaxQfi := by
  rw [SdapEntity.rule]
  by_cases h : qfi.toNat < sdapMaxQfi
  · simp [h]
  · simp [h]

/-- One round reads the table at its QFI and nowhere else. -/
theorem configQfi_ok {entity : SdapEntity} {rnti : UInt16} {drb qfi : UInt8} :
    (∃ pdus, configQfi entity rnti drb qfi = .ok pdus) ↔ qfi.toNat < sdapMaxQfi := by
  rw [← @rule_ok entity]
  constructor
  · rintro ⟨pdus, h⟩
    obtain ⟨r, hr, -⟩ := bind_ok h
    exact ⟨r, hr⟩
  · rintro ⟨r, hr⟩
    have hmap : ∃ drb', qfi2drbMap entity qfi = .ok drb' := by
      simp only [qfi2drbMap, hr, bind, Except.bind]
      split
      · exact ⟨_, rfl⟩
      · split <;> exact ⟨_, rfl⟩
    obtain ⟨drb', hmap⟩ := hmap
    simp only [configQfi, mapCtrlPdu, hr, hmap, bind, Except.bind, pure, Except.pure,
      ← apply_ite Except.ok]
    exact ⟨_, rfl⟩

/-- A repeated creation succeeds if the rules of its QFIs are in the table. -/
theorem ueQfi2drbConfig_ok {entity : SdapEntity} {rnti : UInt16} {drb : UInt8} :
    ∀ {qfis : List ℤ}, (∃ pdus, ueQfi2drbConfig entity rnti drb qfis = .ok pdus) ↔
      ∀ qfi ∈ qfis, (UInt8.ofInt qfi).toNat < sdapMaxQfi
  | [] => by simp [ueQfi2drbConfig]
  | qfi :: qfis => by
      rw [List.forall_mem_cons, ← @ueQfi2drbConfig_ok entity rnti drb qfis,
        ← @configQfi_ok entity rnti drb]
      constructor
      · rintro ⟨pdus, h⟩
        obtain ⟨p, hp, h⟩ := bind_ok h
        obtain ⟨r, hr, -⟩ := bind_ok h
        exact ⟨⟨p, hp⟩, ⟨r, hr⟩⟩
      · rintro ⟨⟨p, hp⟩, ⟨r, hr⟩⟩
        exact ⟨p ++ r, by rw [ueQfi2drbConfig, hp, hr]; rfl⟩

/-! ## The invariant of the good calls -/

/-- The list is the map, and each UE has one entity. -/
structure StoreInv (calls : List Call) (info : SdapInfo) : Prop where
  nodup : (info.entityLlist.map (·.rnti)).Nodup
  mem : ∀ e, e ∈ info.entityLlist ↔ Created calls e
  live : ∀ rnti id, Live calls rnti id ↔
    ∃ e ∈ info.entityLlist, e.rnti = rnti ∧ e.pdusessionId = id

theorem storeInv_nil : StoreInv [] {} where
  nodup := List.nodup_nil
  mem := fun e => by simp [Created, since_nil]
  live := fun rnti id => by simp [Live, since_nil]

/-- A creation that fits: either the entity is there, or the UE has none. -/
theorem newEntity_fits {info : SdapInfo} {a : NewArgs} (hn : (info.entityLlist.map (·.rnti)).Nodup)
    (hf : Fits info (.new a)) :
    (∃ e pdus, e ∈ info.entityLlist ∧ e.rnti = a.rnti ∧ e.pdusessionId = a.pdusessionId ∧
      newEntity info a = .ok (info, pdus)) ∨
    ((∀ e ∈ info.entityLlist, e.rnti ≠ a.rnti) ∧
      newEntity info a = .ok ({ entityLlist := createEntity info.nextAddr a :: info.entityLlist
                                nextAddr := info.nextAddr + 1 }, [])) := by
  by_cases h : ∃ e ∈ info.entityLlist, e.rnti = a.rnti
  · obtain ⟨e, he, hr⟩ := h
    have hi := hf.1 e he hr
    obtain ⟨pdus, hp⟩ := (@ueQfi2drbConfig_ok e a.rnti a.drbIdentity _).2 (hf.2 ⟨e, he, hr⟩)
    refine .inl ⟨e, pdus, he, hr, hi, ?_⟩
    rw [newEntity, (getEntity_iff_mem hn).2 ⟨he, hr, hi⟩]
    simp only [hp]
    rfl
  · have hnone : ∀ e ∈ info.entityLlist, e.rnti ≠ a.rnti := fun e he hr => h ⟨e, he, hr⟩
    refine .inr ⟨hnone, ?_⟩
    have hget : getEntity info a.rnti a.pdusessionId = none := by
      rw [Option.eq_none_iff_forall_ne_some]
      intro e he
      obtain ⟨hm, hr, -⟩ := (getEntity_iff_mem hn).1 he
      exact hnone e hm hr
    rw [newEntity, hget]

theorem storeInv_step {calls : List Call} {call : Call} {info info' : SdapInfo}
    {outs out : List CtrlPdu} (hrun : sdapRun calls = .ok (info, outs))
    (hI : StoreInv calls info) (hf : Fits info call)
    (hs : sdapStep info call = .ok (info', out)) : StoreInv (calls ++ [call]) info' := by
  cases call with
  | new a =>
      rcases newEntity_fits hI.nodup hf with ⟨e, pdus, he, hr, hi, h⟩ | ⟨hnone, h⟩
      · -- the entity exists: nothing is created
        have hlive : Live calls a.rnti a.pdusessionId := (hI.live _ _).2 ⟨e, he, hr, hi⟩
        rw [sdapStep, h] at hs
        cases hs
        refine ⟨hI.nodup, fun e => ?_, fun rnti id => ?_⟩
        · rw [created_new, hI.mem]
          exact ⟨.inl, fun h => h.resolve_right fun ⟨_, _, _, hl, _⟩ => hl hlive⟩
        · rw [live_new, ← hI.live]
          refine ⟨fun h => h.elim (fun h => h) ?_, .inl⟩
          rintro ⟨rfl, rfl⟩
          exact hlive
      · have hdead : ¬ Live calls a.rnti a.pdusessionId := by
          rw [hI.live]
          rintro ⟨e, he, hr, -⟩
          exact hnone e he hr
        rw [sdapStep, h] at hs
        cases hs
        refine ⟨?_, fun e => ?_, fun rnti id => ?_⟩
        · rw [List.map_cons, List.nodup_cons, createEntity_rnti]
          refine ⟨fun hm => ?_, hI.nodup⟩
          obtain ⟨e, he, hr⟩ := List.mem_map.1 hm
          exact hnone e he hr
        · rw [List.mem_cons, created_new, hI.mem, or_comm]
          refine or_congr_right ⟨fun h => ⟨info, outs, hrun, hdead, h⟩, ?_⟩
          rintro ⟨info₁, outs₁, hrun₁, -, he⟩
          rw [hrun] at hrun₁
          cases hrun₁
          exact he
        · rw [live_new, hI.live]
          simp only [List.mem_cons, exists_eq_or_imp, createEntity_rnti,
            createEntity_pdusessionId]
          exact or_comm
  | delete rnti =>
      obtain ⟨e, he, rfl⟩ := hf
      obtain ⟨l, hl⟩ := List.head?_eq_some_iff.1 he
      rw [sdapStep, deleteEntity, hl] at hs
      simp only [if_true] at hs
      cases hs
      have hn := hI.nodup
      rw [hl, List.map_cons, List.nodup_cons] at hn
      have hne : ∀ e' ∈ l, e'.rnti ≠ e.rnti := fun e' he' hr =>
        hn.1 (List.mem_map.2 ⟨e', he', hr⟩)
      have hrest : ∀ e', e' ∈ l ↔ e' ∈ info.entityLlist ∧ e'.rnti ≠ e.rnti := by
        intro e'
        rw [hl, List.mem_cons]
        constructor
        · exact fun h => ⟨.inr h, hne e' h⟩
        · rintro ⟨rfl | h, hr⟩
          · exact absurd rfl hr
          · exact h
      refine ⟨hn.2, fun e' => ?_, fun rnti id => ?_⟩
      · rw [created_delete, hrest, hI.mem]
      · rw [live_delete, hI.live]
        constructor
        · rintro ⟨⟨e', he', rfl, hi⟩, hr⟩
          exact ⟨e', (hrest e').2 ⟨he', hr⟩, rfl, hi⟩
        · rintro ⟨e', he', rfl, hi⟩
          exact ⟨⟨e', ((hrest e').1 he').1, rfl, hi⟩, hne e' he'⟩

/-! ## The store against the map -/

/-- One entity for each UE is one for each UE and session. -/
theorem unique_of_nodup {l : List SdapEntity} (hn : (l.map (·.rnti)).Nodup) (rnti : UInt16)
    (id : ℤ) : (l.filter fun e => e.rnti == rnti && e.pdusessionId == id).length ≤ 1 := by
  have hsub : ((l.filter fun e => e.rnti == rnti && e.pdusessionId == id).map (·.rnti)).Nodup :=
    hn.sublist (List.filter_sublist.map _)
  have hrep : (l.filter fun e => e.rnti == rnti && e.pdusessionId == id).map (·.rnti) =
      List.replicate (l.filter fun e => e.rnti == rnti && e.pdusessionId == id).length rnti := by
    refine List.eq_replicate_iff.2 ⟨List.length_map _, fun r hr => ?_⟩
    obtain ⟨e, he, rfl⟩ := List.mem_map.1 hr
    simpa using (Bool.and_eq_true_iff.1 (List.mem_filter.1 he).2).1
  rw [hrep, List.nodup_replicate] at hsub
  exact hsub

theorem get_of_storeInv {calls : List Call} {info : SdapInfo} (hI : StoreInv calls info) :
    (∀ rnti id entity, getEntity info rnti id = some entity ↔
      Created calls entity ∧ entity.rnti = rnti ∧ entity.pdusessionId = id) ∧
    (∀ rnti id, (∃ entity, getEntity info rnti id = some entity) ↔ Live calls rnti id) ∧
    ∀ rnti id, (info.entityLlist.filter fun e =>
      e.rnti == rnti && e.pdusessionId == id).length ≤ 1 := by
  refine ⟨fun rnti id entity => ?_, fun rnti id => ?_, unique_of_nodup hI.nodup⟩
  · rw [getEntity_iff_mem hI.nodup, hI.mem]
  · rw [hI.live]
    exact exists_congr fun e => getEntity_iff_mem hI.nodup

/-- After a creation for a second session of a UE, the first one is not found. -/
theorem newEntity_hides {info info' : SdapInfo} {a : NewArgs} {out : List CtrlPdu}
    {e : SdapEntity} (hn : (info.entityLlist.map (·.rnti)).Nodup) (he : e ∈ info.entityLlist)
    (hr : e.rnti = a.rnti) (hi : e.pdusessionId ≠ a.pdusessionId)
    (h : newEntity info a = .ok (info', out)) :
    getEntity info' e.rnti e.pdusessionId = none := by
  have hget : getEntity info a.rnti a.pdusessionId = none := by
    rw [Option.eq_none_iff_forall_ne_some]
    intro e' he'
    obtain ⟨hm, hr', hi'⟩ := (getEntity_iff_mem hn).1 he'
    have := List.inj_on_of_nodup_map hn hm he (hr'.trans hr.symm)
    exact hi (this ▸ hi')
  rw [newEntity, hget] at h
  cases h
  rw [Option.eq_none_iff_forall_ne_some]
  intro e' he'
  obtain ⟨hf, hi'⟩ := getEntity_iff.1 he'
  rw [List.find?_cons_of_pos (by simp [hr])] at hf
  cases hf
  exact hi (by rw [← hi', createEntity_pdusessionId])

/-- The deletion of a UE that is not at the head. -/
theorem deleteEntity_not_head {info info' : SdapInfo} {rnti : UInt16}
    (hh : ¬ ∃ e, info.entityLlist.head? = some e ∧ e.rnti = rnti)
    (h : deleteEntity info rnti = .ok info') :
    info.entityLlist ≠ [] ∧
      (((∃ e ∈ info.entityLlist, e.rnti = rnti) ∧ info' = info) ∨
        ((∀ e ∈ info.entityLlist, e.rnti ≠ rnti) ∧
          info'.entityLlist = info.entityLlist.dropLast)) := by
  rw [deleteEntity] at h
  split at h
  · cases h
  · rename_i entityPtr next hl
    have hne : entityPtr.rnti ≠ rnti := fun hr => hh ⟨entityPtr, by simp [hl], hr⟩
    rw [if_neg hne] at h
    obtain ⟨l, hu, h⟩ := bind_ok h
    cases h
    refine ⟨by simp [hl], ?_⟩
    rw [unlinkEntity_eq] at hu
    split at hu
    · rename_i hex
      cases hu
      refine .inl ⟨hl ▸ hex, ?_⟩
      rw [← hl]
    · rename_i hex
      split at hu
      · cases hu
      · cases hu
        rw [hl]
        exact .inr ⟨fun e he hr => hex ⟨e, he, hr⟩, rfl⟩

/-- A call keeps the store a finite map exactly if it fits. -/
theorem finiteMap_snoc {calls : List Call} {call : Call} {info : SdapInfo} {outs : List CtrlPdu}
    (hrun : sdapRun calls = .ok (info, outs)) (hI : StoreInv calls info) :
    FiniteMap (calls ++ [call]) ↔ Fits info call := by
  constructor
  · rintro ⟨⟨info', outs', hrun', hget, hlive, -⟩, hothers⟩
    obtain ⟨info₁, o, out, hrun₁, hs, -⟩ := run_snoc hrun'
    have heq : info₁ = info := by
      rw [sdapRun] at hrun
      rw [hrun] at hrun₁
      cases hrun₁
      rfl
    subst heq
    cases call with
    | new a =>
        have hids : ∀ e ∈ info₁.entityLlist, e.rnti = a.rnti → e.pdusessionId = a.pdusessionId := by
          intro e he hr
          by_contra hi
          have hcr : Created (calls ++ [.new a]) e := created_new.2 (.inl ((hI.mem e).1 he))
          have := (hget e.rnti e.pdusessionId e).2 ⟨hcr, rfl, rfl⟩
          rw [newEntity_hides hI.nodup he hr hi hs] at this
          cases this
        refine ⟨hids, ?_⟩
        rintro ⟨e, he, hr⟩
        rw [sdapStep, newEntity, (getEntity_iff_mem hI.nodup).2 ⟨he, hr, hids e he hr⟩] at hs
        obtain ⟨pdus, hp, -⟩ := bind_ok hs
        exact ueQfi2drbConfig_ok.1 ⟨pdus, hp⟩
    | delete rnti =>
        by_contra hh
        obtain ⟨info'', hd, hs⟩ := bind_ok hs
        cases hs
        obtain ⟨hne, ⟨⟨e, he, hr⟩, rfl⟩ | ⟨hno, hl⟩⟩ := deleteEntity_not_head hh hd
        · have hf := (hget e.rnti e.pdusessionId e).1
            ((getEntity_iff_mem hI.nodup).2 ⟨he, rfl, rfl⟩)
          exact (created_delete.1 hf.1).2 hr
        · have hlast := hothers calls rnti rfl info₁ outs info' outs' hrun hrun' _
            (List.getLast_mem hne) (hno _ (List.getLast_mem hne))
          rw [hl] at hlast
          have hn := (List.Nodup.of_map _ hI.nodup)
          rw [← List.dropLast_append_getLast hne, List.nodup_append] at hn
          exact hn.2.2 _ hlast _ (List.mem_singleton_self _) rfl
  · intro hf
    have hstep : ∃ info' out, sdapStep info call = .ok (info', out) := by
      cases call with
      | new a =>
          rcases newEntity_fits hI.nodup hf with ⟨e, pdus, -, -, -, h⟩ | ⟨-, h⟩
          · exact ⟨info, pdus, h⟩
          · exact ⟨_, _, h⟩
      | delete rnti =>
          obtain ⟨e, he, rfl⟩ := hf
          obtain ⟨l, hl⟩ := List.head?_eq_some_iff.1 he
          refine ⟨{ info with entityLlist := l }, [], ?_⟩
          rw [sdapStep, deleteEntity, hl]
          simp only [if_true]
          rfl
    obtain ⟨info', out, hs⟩ := hstep
    have hI' := storeInv_step hrun hI hf hs
    have hrun' : sdapRun (calls ++ [call]) = .ok (info', outs ++ out) := run_snoc_of_step hrun hs
    refine ⟨⟨info', outs ++ out, hrun', get_of_storeInv hI'⟩, ?_⟩
    intro pre rnti hpre info₁ outs₁ info₂ outs₂ h1 h2 e he hr
    obtain ⟨rfl, hc⟩ := List.append_inj' hpre rfl
    cases hc
    rw [hrun] at h1
    cases h1
    rw [hrun'] at h2
    cases h2
    rw [hI'.mem, created_delete, ← hI.mem]
    exact ⟨he, hr⟩

/-- The entity store is the finite map of its calls, at each call, exactly if each call
fits: a UE never has two PDU sessions, and a UE is deleted only while its entity is the
newest of the list. -/
theorem store_finiteMap (calls : List Call) :
    (∀ pre, pre <+: calls → FiniteMap pre) ↔ Along sdapStep Fits {} calls := by
  refine prefixes_iff_along ?_ ?_ ?_ calls
  · refine ⟨⟨{}, [], rfl, get_of_storeInv storeInv_nil⟩, ?_⟩
    intro pre rnti h
    simp at h
  · rintro is ⟨⟨info, outs, h, -⟩, -⟩
    exact ⟨info, outs, h⟩
  · intro is i info outs hal hrun
    have hI : StoreInv is info :=
      history_invariant (J := fun calls info _ => StoreInv calls info) storeInv_nil
        (fun _ _ _ _ _ _ hr hI hf hs => storeInv_step hr hI hf hs) hal hrun
    exact finiteMap_snoc hrun hI

def exampleArgs (rnti : UInt16) (pdusessionId : ℤ) : NewArgs :=
  { hasSdap := true
    rnti
    pdusessionId
    isDefaultDrb := true
    drbIdentity := 1
    mappedQfi2Add := [1] }

/-- Two PDU sessions of one UE: the first one is not found any more. One UE: the deletion of
another one dereferences NULL. -/
theorem second_session_hides :
    ¬ FiniteMap [.new (exampleArgs 1 10), .new (exampleArgs 1 11)] ∧
      ¬ FiniteMap [.new (exampleArgs 1 10), .delete 2] := by
  have hI : StoreInv [.new (exampleArgs 1 10)]
      { entityLlist := [createEntity 0 (exampleArgs 1 10)]
        nextAddr := 1 } :=
    storeInv_step rfl storeInv_nil ⟨by simp, by simp⟩ rfl
  constructor
  · intro h
    have hf : Fits _ (.new (exampleArgs 1 11)) := (finiteMap_snoc rfl hI).1 h
    exact absurd (hf.1 _ List.mem_cons_self rfl) (by decide)
  · intro h
    obtain ⟨e, he, hr⟩ : Fits _ (.delete 2) := (finiteMap_snoc rfl hI).1 h
    cases he
    exact absurd hr (by decide)

end OaiCu.Sdap
