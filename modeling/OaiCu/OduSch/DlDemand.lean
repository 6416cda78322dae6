import OaiCu.OduSch.DlGrant

/-!
# The demand of a UE in the downlink

The loop over a list moves bytes from the request of a channel to its grant. The first channel that
is served gets the size of the header in addition, which is taken off its grant again; a grant that
is smaller than the header wraps.
-/

namespace OaiCu.OduSch

/-! ## The sizes for one channel -/

/-- The size of the block that the first channel may fill, with the header. -/
def firstSize (tbs : TbCfg) (reqBO maxPRB : ℕ) : ℕ :=
  ((estimateTbSize tbs.mcsIdx tbs.numSymbols ((reqBO + TX_PAYLOAD_HDR_LEN) % 2 ^ 32) maxPRB).map
    Prod.fst).getD 0

/-- The header fits into the block of the first channel, or the request wraps with it. -/
def HeaderFits (tbs : TbCfg) (reqBO maxPRB : ℕ) : Prop :=
  TX_PAYLOAD_HDR_LEN ≤ firstSize tbs reqBO maxPRB ∨ 2 ^ 32 ≤ reqBO + TX_PAYLOAD_HDR_LEN

/-- The subtraction of the header and of the grant, in 32 bits. -/
theorem headerTaken {size reqBO hdr : ℕ} (hlt : reqBO < 2 ^ 32) (hhdr : hdr < 2 ^ 32)
    (hle : size ≤ (reqBO + hdr) % 2 ^ 32) {alloc req : ℕ}
    (halloc : alloc = (size + 2 ^ 32 - hdr) % 2 ^ 32) (hreq : req = (reqBO + 2 ^ 32 - alloc) % 2 ^ 32) :
    req < 2 ^ 32 ∧ (size = hdr → req = reqBO ∧ alloc = 0) ∧
      (size ≠ hdr → req ≠ reqBO ∧ alloc ≠ 0) ∧
      (hdr ≤ size ∨ 2 ^ 32 ≤ reqBO + hdr → req + alloc = reqBO) ∧
      (¬(hdr ≤ size ∨ 2 ^ 32 ≤ reqBO + hdr) → req + alloc = reqBO + 2 ^ 32) := by
  omega

section

variable {tbs : TbCfg} {reqBO maxPRB : ℕ} {t : LcTake}

/-- The estimate for the first channel. -/
theorem dlTake_true (h : dlTake tbs true reqBO maxPRB = some t) :
    estimateTbSize tbs.mcsIdx tbs.numSymbols ((reqBO + TX_PAYLOAD_HDR_LEN) % 2 ^ 32) maxPRB =
        some (firstSize tbs reqBO maxPRB, t.estPrb) ∧
      t.allocBO = (firstSize tbs reqBO maxPRB + 2 ^ 32 - TX_PAYLOAD_HDR_LEN) % 2 ^ 32 ∧
      t.reqBO = (reqBO + 2 ^ 32 - t.allocBO) % 2 ^ 32 := by
  obtain ⟨⟨size, estPrb⟩, hest, heq⟩ := Option.bind_eq_some_iff.mp h
  rw [if_pos rfl] at hest
  obtain rfl := Option.some.inj heq
  have hsize : firstSize tbs reqBO maxPRB = size := by
    rw [firstSize, hest]
    rfl
  rw [hsize]
  dsimp only
  rw [if_pos rfl]
  exact ⟨hest, rfl, rfl⟩

/-- The first channel. -/
theorem dlTake_first (h : dlTake tbs true reqBO maxPRB = some t) (hlt : reqBO < 2 ^ 32) :
    t.reqBO < 2 ^ 32 ∧
    (firstSize tbs reqBO maxPRB = TX_PAYLOAD_HDR_LEN → t.reqBO = reqBO ∧ t.allocBO = 0) ∧
    (firstSize tbs reqBO maxPRB ≠ TX_PAYLOAD_HDR_LEN → t.reqBO ≠ reqBO ∧ t.allocBO ≠ 0) ∧
    (HeaderFits tbs reqBO maxPRB → t.reqBO + t.allocBO = reqBO) ∧
    (¬HeaderFits tbs reqBO maxPRB → t.reqBO + t.allocBO = reqBO + 2 ^ 32) := by
  obtain ⟨hest, halloc, hreq⟩ := dlTake_true h
  have hhdr : TX_PAYLOAD_HDR_LEN < 2 ^ 32 := by
    rw [TX_PAYLOAD_HDR_LEN]
    omega
  exact headerTaken hlt hhdr (estimateTbSize_spec hest).1 halloc hreq

/-- The channels after the first one. -/
theorem dlTake_next (h : dlTake tbs false reqBO maxPRB = some t) (hlt : reqBO < 2 ^ 32) :
    t.reqBO + t.allocBO = reqBO := by
  obtain ⟨⟨size, estPrb⟩, hest, heq⟩ := Option.bind_eq_some_iff.mp h
  rw [if_neg Bool.false_ne_true] at hest
  obtain rfl := Option.some.inj heq
  have hle := (estimateTbSize_spec hest).1
  dsimp only
  rw [if_neg Bool.false_ne_true]
  omega

/-- A block of the size of the header does not hold the request, so that it takes all PRBs. -/
theorem dlTake_first_prb (h : dlTake tbs true reqBO maxPRB = some t) (hpos : 0 < reqBO)
    (hlt : reqBO < 2 ^ 32) (hsize : firstSize tbs reqBO maxPRB = TX_PAYLOAD_HDR_LEN) :
    maxPRB ≤ t.estPrb := by
  obtain ⟨⟨size, estPrb⟩, hloop, heq⟩ := Option.bind_eq_some_iff.mp (dlTake_true h).1
  obtain ⟨hmin, rfl⟩ := Prod.mk.inj (Option.some.inj heq)
  obtain ⟨k, -, hprb, -, -, hstop, -⟩ := estimateSizes_spec maxPRB 1 (by omega) hloop
  simp only [hsize, TX_PAYLOAD_HDR_LEN] at hmin hstop
  omega

end

/-! ## The sizes in a list -/

/-- What a channel requests and what it was granted, with all its nodes. -/
def reqOf (lcId : ℕ) (lcLL : List LcInfo) : ℕ :=
  ((lcLL.filter fun n => n.lcId = lcId).map (·.reqBO)).sum

def allocOf (lcId : ℕ) (lcLL : List LcInfo) : ℕ :=
  ((lcLL.filter fun n => n.lcId = lcId).map (·.allocBO)).sum

section

variable {lcId : ℕ} {l l' rest : List LcInfo} {n : LcInfo}

@[simp] theorem reqOf_nil : reqOf lcId [] = 0 := rfl

@[simp] theorem allocOf_nil : allocOf lcId [] = 0 := rfl

theorem reqOf_cons : reqOf lcId (n :: l) = (if n.lcId = lcId then n.reqBO else 0) + reqOf lcId l := by
  rw [reqOf, List.filter_cons]
  by_cases h : n.lcId = lcId
  · simp [h, reqOf]
  · simp [h, reqOf]

theorem allocOf_cons :
    allocOf lcId (n :: l) = (if n.lcId = lcId then n.allocBO else 0) + allocOf lcId l := by
  rw [allocOf, List.filter_cons]
  by_cases h : n.lcId = lcId
  · simp [h, allocOf]
  · simp [h, allocOf]

theorem reqOf_append : reqOf lcId (l ++ l') = reqOf lcId l + reqOf lcId l' := by
  rw [reqOf, List.filter_append, List.map_append, List.sum_append]
  rfl

theorem allocOf_append : allocOf lcId (l ++ l') = allocOf lcId l + allocOf lcId l' := by
  rw [allocOf, List.filter_append, List.map_append, List.sum_append]
  rfl

theorem reqOf_of_not_mem (h : ∀ n ∈ l, n.lcId ≠ lcId) : reqOf lcId l = 0 := by
  rw [reqOf, List.filter_eq_nil_iff.mpr fun n hn => by simpa using h n hn]
  rfl

/-- The node of a channel is the only one. -/
theorem filter_lcId (hnd : (l.map (·.lcId)).Nodup) (hn : n ∈ l) :
    (l.filter fun m => m.lcId = n.lcId) = [n] := by
  refine List.perm_singleton.mp ((List.perm_ext_iff_of_nodup ?_ (List.nodup_singleton n)).mpr
    fun m => ?_)
  · exact (hnd.of_map _).filter _
  · rw [List.mem_filter, List.mem_singleton, decide_eq_true_eq]
    constructor
    · rintro ⟨hm, hid⟩
      exact List.inj_on_of_nodup_map hnd hm hn hid
    · rintro rfl
      exact ⟨hn, rfl⟩

theorem reqOf_of_mem (hnd : (l.map (·.lcId)).Nodup) (hn : n ∈ l) : reqOf n.lcId l = n.reqBO := by
  rw [reqOf, filter_lcId hnd hn, List.map_singleton, List.sum_singleton]

/-- Nodes that request nothing may go. -/
theorem reqOf_filter (lcId : ℕ) (l : List LcInfo) :
    reqOf lcId (l.filter (·.reqBO ≠ 0)) = reqOf lcId l := by
  induction l with
  | nil => rfl
  | cons n l ih =>
      rw [List.filter_cons]
      split
      · rw [reqOf_cons, reqOf_cons, ih]
      · rename_i hzero
        have hzero : n.reqBO = 0 := by simpa using hzero
        rw [reqOf_cons, ih, hzero, ite_self, Nat.zero_add]

theorem allocOf_eq_zero : (∀ lcId, allocOf lcId l = 0) ↔ ∀ n ∈ l, n.allocBO = 0 := by
  constructor
  · intro h n hn
    have hsum := h n.lcId
    rw [allocOf, List.sum_eq_zero_iff_forall_eq_nat, List.forall_mem_map] at hsum
    exact hsum n (List.mem_filter.mpr ⟨hn, decide_eq_true rfl⟩)
  · intro h lcId
    rw [allocOf, List.sum_eq_zero_iff_forall_eq_nat, List.forall_mem_map]
    exact fun n hn => h n (List.mem_of_mem_filter hn)

end

/-! ## The loop -/

/-- The list without the nodes at its head that need nothing. -/
def waiting (lcLL : List LcInfo) : List LcInfo := lcLL.dropWhile fun n => n.demand = 0

/-- What serving the channels of a list does: what a channel needs stays the same but for `extra`,
and a node with a grant is not touched. -/
structure Moved (extra : ℕ → ℕ) (l l' : List LcInfo) : Prop where
  ids : (l'.map (·.lcId)).Subperm (l.map (·.lcId))
  total : ∀ lcId, reqOf lcId l' + allocOf lcId l' = reqOf lcId l + allocOf lcId l + extra lcId
  keep : ∀ n ∈ l, n.allocBO ≠ 0 → n ∈ l'
  small : (∀ n ∈ l, n.reqBO < 2 ^ 32) → ∀ n ∈ l', n.reqBO < 2 ^ 32

namespace Moved

variable {extra extra' : ℕ → ℕ} {l l' l₁ l₁' : List LcInfo}

theorem refl (l : List LcInfo) : Moved 0 l l :=
  ⟨List.Subperm.refl _, fun _ => rfl, fun _ hn _ => hn, id⟩

theorem trans (h : Moved extra l l') (h' : Moved extra' l' l₁) : Moved (extra + extra') l l₁ where
  ids := h'.ids.trans h.ids
  total := fun lcId => by
    rw [h'.total, h.total, Pi.add_apply, Nat.add_assoc]
  keep := fun n hn halloc => h'.keep n (h.keep n hn halloc) halloc
  small := fun hsmall => h'.small (h.small hsmall)

theorem append (h : Moved extra l l') (h' : Moved extra' l₁ l₁') :
    Moved (extra + extra') (l ++ l₁) (l' ++ l₁') where
  ids := by
    rw [List.map_append, List.map_append]
    exact h.ids.append h'.ids
  total := fun lcId => by
    have hl := h.total lcId
    have hl₁ := h'.total lcId
    rw [reqOf_append, reqOf_append, allocOf_append, allocOf_append, Pi.add_apply]
    omega
  keep := fun n hn halloc => by
    rcases List.mem_append.mp hn with hn | hn
    · exact List.mem_append_left _ (h.keep n hn halloc)
    · exact List.mem_append_right _ (h'.keep n hn halloc)
  small := fun hsmall n hn => by
    rcases List.mem_append.mp hn with hn | hn
    · exact h.small (fun m hm => hsmall m (List.mem_append_left _ hm)) n hn
    · exact h'.small (fun m hm => hsmall m (List.mem_append_right _ hm)) n hn

/-- The head of the list is served and goes to its tail. -/
theorem rotate {n n' : LcInfo} {rest : List LcInfo} (hid : n'.lcId = n.lcId)
    (halloc : n.allocBO = 0) (htotal : n'.reqBO + n'.allocBO = n.reqBO + extra n.lcId)
    (hextra : ∀ lcId, lcId ≠ n.lcId → extra lcId = 0) (hsmall : n.reqBO < 2 ^ 32 → n'.reqBO < 2 ^ 32) :
    Moved extra (n :: rest) (rest ++ [n']) where
  ids := by
    rw [List.map_append, List.map_cons, List.map_nil, hid]
    exact (List.perm_append_singleton _ _).subperm
  total := fun lcId => by
    rw [reqOf_append, allocOf_append, reqOf_cons, allocOf_cons, reqOf_cons, allocOf_cons, hid]
    by_cases h : n.lcId = lcId
    · rw [if_pos h, if_pos h, if_pos h, if_pos h, reqOf_nil, allocOf_nil, ← h]
      omega
    · rw [if_neg h, if_neg h, if_neg h, if_neg h, hextra lcId fun he => h he.symm, reqOf_nil,
        allocOf_nil]
      omega
  keep := fun m hm hne => by
    rcases List.mem_cons.mp hm with rfl | hm
    · exact absurd halloc hne
    · exact List.mem_append_left _ hm
  small := fun h m hm => by
    rcases List.mem_append.mp hm with hm | hm
    · exact h m (List.mem_cons_of_mem _ hm)
    · rw [List.mem_singleton.mp hm]
      exact hsmall (h n List.mem_cons_self)

end Moved

theorem reqOf_cons_zero {n : LcInfo} (h : n.demand = 0) (lcId : ℕ) (l : List LcInfo) :
    reqOf lcId (n :: l) = reqOf lcId l := by
  rw [reqOf_cons, (Nat.add_eq_zero_iff.mp h).1, ite_self, Nat.zero_add]

/-- A node that needs nothing is dropped. -/
theorem Moved.tail {n : LcInfo} (h : n.demand = 0) (l : List LcInfo) : Moved 0 (n :: l) l where
  ids := List.Sublist.subperm (List.sublist_cons_self _ _)
  total := fun lcId => by
    rw [reqOf_cons_zero h, allocOf_cons, (Nat.add_eq_zero_iff.mp h).2, ite_self, Nat.zero_add]
    rfl
  keep := fun m hm hne => by
    rcases List.mem_cons.mp hm with rfl | hm
    · exact absurd (Nat.add_eq_zero_iff.mp h).2 hne
    · exact hm
  small := fun hsmall m hm => hsmall m (List.mem_cons_of_mem _ hm)

theorem waiting_moved : ∀ l : List LcInfo, Moved 0 l (waiting l) ∧
    ∀ lcId, reqOf lcId (waiting l) = reqOf lcId l
  | [] => ⟨.refl [], fun _ => rfl⟩
  | n :: l => by
      rw [waiting, List.dropWhile_cons]
      split
      · rename_i hzero
        have hzero := of_decide_eq_true hzero
        obtain ⟨hmoved, hreq⟩ := waiting_moved l
        refine ⟨?_, fun lcId => (hreq lcId).trans (reqOf_cons_zero hzero lcId l).symm⟩
        have h := (Moved.tail hzero l).trans hmoved
        rwa [add_zero] at h
      · exact ⟨.refl _, fun _ => rfl⟩

theorem waiting_of_head {l : List LcInfo} (h : ∀ n ∈ l.head?, n.demand ≠ 0) : waiting l = l := by
  cases l with
  | nil => rfl
  | cons n l => rw [waiting, List.dropWhile_cons_of_neg (by simpa using h n rfl)]

namespace LcLoop

variable {take : Bool → ℕ → ℕ → Option LcTake} {tbs : TbCfg} {isDedicatedPRB : Bool}

theorem serve_tail (l : List LcInfo) (n : LcInfo) (rest : List LcInfo) (t : LcTake) (s : LcLoop) :
    ({ s with lcLL := l } : LcLoop).serve isDedicatedPRB n rest t =
      s.serve isDedicatedPRB n rest t := by
  rw [serve, serve, usePrb, usePrb]
  dsimp only
  split <;> rfl

/-- The rounds up to the first channel that is served. -/
theorem run_waiting : ∀ {fuel : ℕ} {s s' : LcLoop}, s.lcLL.length < fuel →
    run take isDedicatedPRB fuel s = some s' →
    ((s.exhausted isDedicatedPRB = true ∨ ∀ n ∈ (waiting s.lcLL).head?, n.allocBO ≠ 0) ∧
      s' = { s with lcLL := waiting s.lcLL }) ∨
    ∃ n rest t fuel', waiting s.lcLL = n :: rest ∧ 0 < n.reqBO ∧ n.allocBO = 0 ∧
      s.exhausted isDedicatedPRB = false ∧
      take s.first n.reqBO (s.remReservedPRB + s.sharedPRB) = some t ∧
      run take isDedicatedPRB fuel' (s.serve isDedicatedPRB n rest t) = some s'
  | fuel + 1, s, s', hlt, h => by
      obtain ⟨hdone, hhead, rfl⟩ | ⟨n, rest, hcons, hzero, h⟩ |
        ⟨n, rest, t, hcons, hpos, halloc, hex, ht, h⟩ := run_succ h
      · rw [waiting_of_head hhead]
        exact .inl ⟨hdone, rfl⟩
      · have hdrop : waiting s.lcLL = waiting rest := by
          rw [hcons, waiting, List.dropWhile_cons, if_pos (decide_eq_true hzero), waiting]
        rw [hcons, List.length_cons] at hlt
        rw [hdrop]
        obtain hend | ⟨n', rest', t, fuel', hcons', hpos, halloc, hex, ht, h⟩ :=
          run_waiting (Nat.lt_of_succ_lt_succ hlt) h
        · exact .inl hend
        · rw [serve_tail] at h
          exact .inr ⟨n', rest', t, fuel', hcons', hpos, halloc, hex, ht, h⟩
      · refine .inr ⟨n, rest, t, fuel, ?_, hpos, halloc, hex, ht, h⟩
        rw [waiting_of_head fun n' hn' => ?_, hcons]
        rw [hcons] at hn'
        cases hn'
        rw [LcInfo.demand]
        omega

/-- The channels after the first one. -/
theorem run_moved : ∀ {fuel : ℕ} {s s' : LcLoop}, s.first = false →
    (∀ n ∈ s.lcLL, n.reqBO < 2 ^ 32) → run (dlTake tbs) isDedicatedPRB fuel s = some s' →
    Moved 0 s.lcLL s'.lcLL ∧ s'.first = false
  | 0, s, s', hfirst, _, h => by
      cases h
      exact ⟨.refl _, hfirst⟩
  | fuel + 1, s, s', hfirst, hsmall, h => by
      obtain ⟨-, -, rfl⟩ | ⟨n, rest, hcons, hzero, h⟩ | ⟨n, rest, t, hcons, -, halloc, -, ht, h⟩ :=
        run_succ h
      · exact ⟨.refl _, hfirst⟩
      · have hmoved := Moved.tail hzero rest
        obtain ⟨hrest, hfirst'⟩ := run_moved (s := { s with lcLL := rest }) hfirst
          (fun m hm => hsmall m (hcons ▸ List.mem_cons_of_mem _ hm)) h
        have hall := hmoved.trans hrest
        rw [add_zero] at hall
        rw [hcons]
        exact ⟨hall, hfirst'⟩
      · have hlt := hsmall n (hcons ▸ List.mem_cons_self)
        rw [hfirst] at ht
        have hsum := dlTake_next ht hlt
        have hserve : Moved 0 (n :: rest) (s.serve isDedicatedPRB n rest t).lcLL :=
          Moved.rotate rfl halloc hsum (fun _ _ => rfl) fun _ => by
            dsimp only
            omega
        obtain ⟨hrest, hfirst'⟩ := run_moved rfl (hserve.small (hcons ▸ hsmall)) h
        have hall := hserve.trans hrest
        rw [add_zero] at hall
        rw [hcons]
        exact ⟨hall, hfirst'⟩

/-- Without PRBs nothing changes any more. -/
theorem run_exhausted : ∀ {fuel : ℕ} {s s' : LcLoop}, s.exhausted isDedicatedPRB = true →
    run take isDedicatedPRB fuel s = some s' →
    (∀ lcId, reqOf lcId s'.lcLL = reqOf lcId s.lcLL) ∧ s'.sharedPRB = s.sharedPRB
  | 0, s, s', _, h => by
      cases h
      exact ⟨fun _ => rfl, rfl⟩
  | fuel + 1, s, s', hex, h => by
      obtain ⟨-, -, rfl⟩ | ⟨n, rest, hcons, hzero, h⟩ | ⟨n, rest, t, -, -, -, hno, -⟩ := run_succ h
      · exact ⟨fun _ => rfl, rfl⟩
      · obtain ⟨hreq, hshared⟩ := run_exhausted (s := { s with lcLL := rest }) hex h
        rw [hcons]
        exact ⟨fun lcId => (hreq lcId).trans (reqOf_cons_zero hzero lcId rest).symm, hshared⟩
      · exact Bool.noConfusion (hex.symm.trans hno)

variable {s : LcLoop}

/-- A channel that takes all PRBs leaves none. -/
theorem usePrb_all (isDedicatedPRB : Bool) {estPrb : ℕ} (h : s.remReservedPRB + s.sharedPRB ≤ estPrb) :
    (s.usePrb isDedicatedPRB estPrb).sharedPRB = 0 ∧
      (s.usePrb isDedicatedPRB estPrb).remReservedPRB = 0 := by
  rw [usePrb]
  split
  · rename_i hded
    have hle := of_decide_eq_true (Bool.and_eq_true_iff.mp hded).2
    dsimp only
    omega
  · dsimp only
    rw [if_pos (by omega)]
    exact ⟨rfl, rfl⟩

end LcLoop

end OaiCu.OduSch
