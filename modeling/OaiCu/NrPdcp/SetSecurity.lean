import Mathlib.Data.List.DropRight
import OaiCu.NrPdcp.Entity

/-!
# The security of a PDCP entity (`nr_pdcp_entity_set_security`)

Integrity and ciphering are set in the same way: the algorithm and the key that are given are
kept, and a context is built if an algorithm is given. What is in effect after some calls is
compared with what they asked for.
-/

namespace OaiCu.NrPdcp

open Machine

universe u

/-! ## The state -/

/-- What `set_security` logs before it exits. -/
inductive Fatal
  | onlyNia2
  | onlyNea2
deriving DecidableEq, Repr

abbrev Key := Vector UInt8 16

/-- NIA2 and NEA2 as the entity calls them: a context is built from a key, and all else is done
with the context. -/
structure Algorithms (ι κ : Type u) where
  niaInit : Key → ι
  neaInit : Key → κ
  niaIntegrity : ι → ℤ → ℕ → ℕ → List UInt8 → List UInt8
  neaCipher : κ → ℤ → ℕ → ℕ → List UInt8 → List UInt8
  niaIntegrity_length : ∀ i b c d l, (niaIntegrity i b c d l).length = 4
  neaCipher_length : ∀ k b c d l, (neaCipher k b c d l).length = l.length

/-- What a context pointer points to. -/
inductive Context (κ : Type u)
  | null
  | allocated (context : κ)
  | freed
deriving DecidableEq, Repr

/-- One half of the security of an entity: `has_ciphering`, `ciphering_algorithm`,
`ciphering_key`, `security_context`, and whether `free_security` is set. -/
structure Protection (κ : Type u) where
  has : Bool := false
  algorithm : ℤ := 0
  key : Key := Vector.replicate 16 0
  context : Context κ := .null
  free : Bool := false

/-- Both halves, as `new_nr_pdcp_entity` allocates them. -/
structure SecurityState (ι κ : Type u) where
  integrity : Protection ι := {}
  ciphering : Protection κ := {}

/-- The arguments of `set_security` for one half: an algorithm, or -1 for the current one, and
a key, or NULL for the current one. -/
structure Request where
  algorithm : ℤ
  key : Option Key

structure SetSecurity where
  integrity : Request
  ciphering : Request

/-! ## `nr_pdcp_entity_set_security` -/

section

variable {ι κ : Type u}

/-- The algorithm and the key are kept. -/
def Protection.store (h : Protection κ) (r : Request) : Protection κ :=
  { h with
    algorithm := if r.algorithm ≠ -1 then r.algorithm else h.algorithm
    key := r.key.getD h.key }

/-- The context is freed if there is a function to do it. -/
def Protection.release (h : Protection κ) : Protection κ :=
  if h.free then { h with context := .freed } else h

/-- What is done for the algorithm that is given. -/
def Protection.apply (init : Key → κ) (fatal : Fatal) (h : Protection κ) (algorithm : ℤ) :
    Except Fatal (Protection κ) :=
  let h := if algorithm = 0 then { h.release with has := false, free := false } else h
  if algorithm ≠ 0 ∧ algorithm ≠ -1 then
    if algorithm ≠ 2 then .error fatal
    else .ok { h.release with has := true, context := .allocated (init h.key), free := true }
  else .ok h

/-- `nr_pdcp_entity_set_security`. -/
def setSecurity (A : Algorithms ι κ) (s : SecurityState ι κ) (call : SetSecurity) :
    Except Fatal (SecurityState ι κ) := do
  let integrity := s.integrity.store call.integrity
  let ciphering := s.ciphering.store call.ciphering
  let integrity ← integrity.apply A.niaInit .onlyNia2 call.integrity.algorithm
  let ciphering ← ciphering.apply A.neaInit .onlyNea2 call.ciphering.algorithm
  return { integrity, ciphering }

/-- The entity as a machine that takes calls of `set_security`. -/
def securityStep (A : Algorithms ι κ) (s : SecurityState ι κ) (call : SetSecurity) :
    Except Fatal (SecurityState ι κ × List Empty) := do
  let s ← setSecurity A s call
  return (s, [])

/-! ## What PDUs get -/

/-- The context that is applied to a PDU, if one is. -/
def Protection.inEffect (h : Protection κ) : Option (Context κ) :=
  if h.has then some h.context else none

/-- The functions that the entity applies. Those of a context that is not there are not
reached. -/
def SecurityState.security (A : Algorithms ι κ) (s : SecurityState ι κ) : Security where
  cipher b c d l :=
    match s.ciphering.inEffect with
    | some (.allocated context) => A.neaCipher context b c d l
    | _ => l
  integrity b c d l :=
    match s.integrity.inEffect with
    | some (.allocated context) => A.niaIntegrity context b c d l
    | _ => [0, 0, 0, 0]
  cipher_length := by
    intro b c d l
    split
    · exact A.neaCipher_length _ b c d l
    · rfl
  integrity_length := by
    intro b c d l
    split
    · exact A.niaIntegrity_length _ b c d l
    · rfl

/-- The configuration by which the entity sends and receives. -/
def PdcpConfig.secured (cfg : PdcpConfig) (A : Algorithms ι κ) (s : SecurityState ι κ) :
    PdcpConfig :=
  { cfg with
    hasCiphering := s.ciphering.has
    hasIntegrity := s.integrity.has
    security := s.security A }

/-! ## What was asked for -/

/-- The last algorithm other than -1. -/
def lastAlgorithm (rs : List Request) : ℤ :=
  ((rs.map Request.algorithm).filter (· ≠ -1)).getLastD 0

/-- The last key that was given. -/
def lastKey (rs : List Request) : Key :=
  (rs.filterMap Request.key).getLastD (Vector.replicate 16 0)

/-- The protection that the calls ask for. -/
def requested (init : Key → κ) (rs : List Request) : Protection κ where
  has := lastAlgorithm rs ≠ 0
  algorithm := lastAlgorithm rs
  key := lastKey rs
  context := if lastAlgorithm rs = 0 then .null else .allocated (init (lastKey rs))
  free := lastAlgorithm rs ≠ 0

/-- Both halves. -/
def requestedState (A : Algorithms ι κ) (calls : List SetSecurity) : SecurityState ι κ where
  integrity := requested A.niaInit (calls.map SetSecurity.integrity)
  ciphering := requested A.neaInit (calls.map SetSecurity.ciphering)

/-- What is in effect is what the calls asked for. -/
structure AsRequested (A : Algorithms ι κ) (calls : List SetSecurity) (s : SecurityState ι κ) :
    Prop where
  integrity : s.integrity.inEffect = (requestedState A calls).integrity.inEffect
  ciphering : s.ciphering.inEffect = (requestedState A calls).ciphering.inEffect

/-- The key that was the current one when an algorithm was given last. -/
def keyTaken (rs : List Request) : Key :=
  lastKey (rs.rdropWhile fun r => r.algorithm = -1)

/-- The keys that came without an algorithm, since the last one was given, make no other
context. -/
def KeyInUse (init : Key → κ) (rs : List Request) : Prop :=
  lastAlgorithm rs = 0 ∨ init (keyTaken rs) = init (lastKey rs)

/-! ## One half -/

theorem lastAlgorithm_append (rs : List Request) (r : Request) :
    lastAlgorithm (rs ++ [r]) = if r.algorithm ≠ -1 then r.algorithm else lastAlgorithm rs := by
  unfold lastAlgorithm
  by_cases h : r.algorithm = -1
  · simp [h]
  · simp [h, List.getLastD_eq_getLast?]

theorem lastKey_append (rs : List Request) (r : Request) :
    lastKey (rs ++ [r]) = r.key.getD (lastKey rs) := by
  unfold lastKey
  cases h : r.key with
  | none => simp [h]
  | some key => simp [h, List.getLastD_eq_getLast?]

theorem keyTaken_append (rs : List Request) (r : Request) :
    keyTaken (rs ++ [r]) = if r.algorithm ≠ -1 then lastKey (rs ++ [r]) else keyTaken rs := by
  unfold keyTaken
  rw [List.rdropWhile_concat]
  split
  · rename_i h
    rw [if_neg (by simpa using h)]
  · rename_i h
    rw [if_pos (by simpa using h)]

/-- What the calls so far leave of one half. -/
structure Follows (init : Key → κ) (rs : List Request) (h : Protection κ) : Prop where
  algorithm : h.algorithm = lastAlgorithm rs
  key : h.key = lastKey rs
  has : h.has = decide (lastAlgorithm rs ≠ 0)
  context : lastAlgorithm rs ≠ 0 → h.context = .allocated (init (keyTaken rs))
  free : h.free = h.has

theorem follows_new (init : Key → κ) : Follows init [] {} where
  algorithm := rfl
  key := rfl
  has := rfl
  context := fun h => absurd rfl h
  free := rfl

/-- A call does what it is asked for, except that it takes no key without an algorithm. -/
theorem Follows.apply {init : Key → κ} {fatal : Fatal} {rs : List Request} {r : Request}
    {h h' : Protection κ} (hf : Follows init rs h)
    (hok : (h.store r).apply init fatal r.algorithm = .ok h') :
    Follows init (rs ++ [r]) h' := by
  have halg : (h.store r).algorithm = lastAlgorithm (rs ++ [r]) := by
    rw [lastAlgorithm_append, ← hf.algorithm]
    rfl
  have hkey : (h.store r).key = lastKey (rs ++ [r]) := by
    rw [lastKey_append, ← hf.key]
    rfl
  have hrelease : (h.store r).release.algorithm = (h.store r).algorithm ∧
      (h.store r).release.key = (h.store r).key := by
    unfold Protection.release
    split
    · exact ⟨rfl, rfl⟩
    · exact ⟨rfl, rfl⟩
  unfold Protection.apply at hok
  dsimp only at hok
  by_cases hkeep : r.algorithm = -1
  · -- nothing is built
    have hlast : lastAlgorithm (rs ++ [r]) = lastAlgorithm rs := by
      rw [lastAlgorithm_append, if_neg (not_not.mpr hkeep)]
    have hon : r.algorithm ≠ 0 := by omega
    rw [if_neg hon, if_neg fun h => h.2 hkeep] at hok
    cases hok
    refine ⟨halg, hkey, hlast ▸ hf.has, ?_, hf.free⟩
    rw [hlast, keyTaken_append, if_neg (not_not.mpr hkeep)]
    exact hf.context
  · have hlast : lastAlgorithm (rs ++ [r]) = r.algorithm := by
      rw [lastAlgorithm_append, if_pos hkeep]
    by_cases hoff : r.algorithm = 0
    · rw [if_pos hoff, if_neg fun h => h.1 hoff] at hok
      cases hok
      refine ⟨hrelease.1.trans halg, hrelease.2.trans hkey, ?_, ?_, rfl⟩
      · rw [hlast, hoff]
        rfl
      · intro h
        exact absurd (hlast.trans hoff) h
    · rw [if_neg hoff, if_pos ⟨hoff, hkeep⟩] at hok
      split at hok
      · cases hok
      · cases hok
        refine ⟨hrelease.1.trans halg, hrelease.2.trans hkey, ?_, ?_, rfl⟩
        · rw [hlast]
          exact (decide_eq_true hoff).symm
        · intro _
          rw [keyTaken_append, if_pos hkeep, ← hkey]

theorem Follows.inEffect {init : Key → κ} {rs : List Request} {h : Protection κ}
    (hf : Follows init rs h) :
    h.inEffect = (requested init rs).inEffect ↔ KeyInUse init rs := by
  unfold Protection.inEffect requested KeyInUse
  rw [hf.has]
  by_cases hoff : lastAlgorithm rs = 0
  · simp [hoff]
  · simp [hoff, hf.context hoff]

/-! ## Runs -/

/-- What is in effect after a sequence of calls is what they asked for exactly if no key that
came without an algorithm would have to be taken. -/
theorem as_requested (A : Algorithms ι κ) (calls : List SetSecurity) (s : SecurityState ι κ)
    (outs : List Empty) (hrun : run (securityStep A) {} calls = .ok (s, outs)) :
    AsRequested A calls s ↔
      KeyInUse A.niaInit (calls.map SetSecurity.integrity) ∧
        KeyInUse A.neaInit (calls.map SetSecurity.ciphering) := by
  have hfollows : Follows A.niaInit (calls.map SetSecurity.integrity) s.integrity ∧
      Follows A.neaInit (calls.map SetSecurity.ciphering) s.ciphering := by
    refine history_invariant (P := fun _ _ => True)
      (J := fun calls s _ => Follows A.niaInit (calls.map SetSecurity.integrity) s.integrity ∧
        Follows A.neaInit (calls.map SetSecurity.ciphering) s.ciphering)
      ⟨follows_new _, follows_new _⟩ ?_ (along_of_forall (fun _ _ => trivial) _ _) hrun
    rintro calls call s s' _ _ - ⟨hi, hc⟩ - hs
    obtain ⟨s₁, hset, hs⟩ := bind_ok hs
    cases hs
    obtain ⟨integrity, hint, hset⟩ := bind_ok hset
    obtain ⟨ciphering, hciph, hset⟩ := bind_ok hset
    cases hset
    rw [List.map_append, List.map_append]
    exact ⟨hi.apply hint, hc.apply hciph⟩
  constructor
  · intro h
    exact ⟨hfollows.1.inEffect.mp h.integrity, hfollows.2.inEffect.mp h.ciphering⟩
  · rintro ⟨hi, hc⟩
    exact ⟨hfollows.1.inEffect.mpr hi, hfollows.2.inEffect.mpr hc⟩

end

/-- Contexts that hold their key. -/
def exampleAlgorithms : Algorithms Key Key where
  niaInit key := key
  neaInit key := key
  niaIntegrity key _ count _ l := [UInt8.ofNat count, l.foldl (· + ·) 0, key[0], 0]
  neaCipher key _ count _ l := l.map (· ^^^ (key[0] + UInt8.ofNat count))
  niaIntegrity_length := fun _ _ _ _ _ => rfl
  neaCipher_length := fun _ _ _ _ _ => List.length_map _

/-- Both keys are 1, and both algorithms are on. -/
def securityOn : SetSecurity where
  integrity := { algorithm := 2, key := some (Vector.replicate 16 1) }
  ciphering := { algorithm := 2, key := some (Vector.replicate 16 1) }

/-- A ciphering key for the current algorithm. -/
def rekey : SetSecurity where
  integrity := { algorithm := -1, key := none }
  ciphering := { algorithm := -1, key := some (Vector.replicate 16 2) }

/-- A key that comes with ciphering off and is taken when it is on again. -/
theorem as_requested_off_on : ∃ s outs,
    run (securityStep exampleAlgorithms) {}
        [securityOn, ⟨⟨-1, none⟩, ⟨0, none⟩⟩, rekey, ⟨⟨-1, none⟩, ⟨2, none⟩⟩] = .ok (s, outs) ∧
      AsRequested exampleAlgorithms
        [securityOn, ⟨⟨-1, none⟩, ⟨0, none⟩⟩, rekey, ⟨⟨-1, none⟩, ⟨2, none⟩⟩] s := by
  refine ⟨_, _, rfl, (as_requested exampleAlgorithms _ _ _ rfl).mpr ⟨.inr ?_, .inr ?_⟩⟩
  · decide
  · decide

/-- The new key is kept, but PDUs are still ciphered with the old one. -/
theorem rekey_not_in_effect : ∃ s outs,
    run (securityStep exampleAlgorithms) {} [securityOn, rekey] = .ok (s, outs) ∧
      s.ciphering.key = Vector.replicate 16 2 ∧
      s.ciphering.inEffect = some (.allocated (Vector.replicate 16 1)) ∧
      ¬ AsRequested exampleAlgorithms [securityOn, rekey] s := by
  refine ⟨_, _, rfl, rfl, rfl, fun h => ?_⟩
  exact absurd h.ciphering (by decide)

end OaiCu.NrPdcp
