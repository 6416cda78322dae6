import OaiCu.Lib.Machine
import Mathlib.Data.List.Range
import Mathlib.Algebra.Ring.Int.Defs
import Mathlib.Algebra.Ring.Nat

/-!
# Static slices (slicing.c)

The scheduler shares its resource block groups, or on the uplink its resource blocks, out among
at most four slices. A slice has an identity, a range of the resources, a scheduling algorithm and
the list of its UEs; for each UE a table has the position of its slice in the array of slices.
-/

namespace OaiCu.LteMac

/-- `static_slice_param_t`. -/
structure StaticSliceParam where
  posLow : ℕ
  posHigh : ℕ
  deriving DecidableEq

namespace StaticSliceParam

/-- What `for (int i = posLow; i <= posHigh; ++i)` goes through. -/
def indices (p : StaticSliceParam) : List ℕ := List.range' p.posLow (p.posHigh + 1 - p.posLow)

theorem mem_indices {p : StaticSliceParam} {i : ℕ} :
    i ∈ p.indices ↔ p.posLow ≤ i ∧ i ≤ p.posHigh := by
  rw [indices, List.mem_range'_1]
  omega

theorem indices_sorted (p : StaticSliceParam) : p.indices.Pairwise (· < ·) :=
  List.pairwise_lt_range'

end StaticSliceParam

/-- The data of `default_sched_dl_algo_t` and `default_sched_ul_algo_t`: what `setup` returns, and
`data`; `none` is a null pointer. -/
structure SchedAlgo where
  setup : Option ℕ
  data : Option ℕ
  deriving DecidableEq

/-- The algorithm as a slice takes it over. -/
def SchedAlgo.install (a : SchedAlgo) : SchedAlgo :=
  { a with data := if a.data.isNone then a.setup else a.data }

/-- `slice_t`. -/
structure Slice where
  id : ℕ
  label : Option String
  algo : SchedAlgo
  algoData : StaticSliceParam
  ues : List ℕ
  deriving DecidableEq

/-- `slice_info_t`; `num` is the number of slices. -/
structure SliceInfo where
  s : List Slice
  ueAssocSlice : ℕ → ℕ

namespace SliceInfo

def num (si : SliceInfo) : ℕ := si.s.length

end SliceInfo

/-- What differs between the downlink and the uplink: the size of the map and how far `posHigh`
has to be above `posLow`. -/
inductive Link
  | dl
  | ul
  deriving DecidableEq

namespace Link

def mapSize : Link → ℕ
  | .dl => 25
  | .ul => 110

def gap : Link → ℕ
  | .dl => 0
  | .ul => 2

end Link

/-- How a call ends the program, or leaves what C defines. -/
inductive Fault
  /-- An entry outside of the map is read or written. -/
  | outside
  /-- An entry of the array of slices that is none is used. -/
  | dangling
  /-- A loop does not end. -/
  | spins
  /-- `DevAssert` of `_remove_UE`: the UE is not in the list of its slice. -/
  | notFound
  /-- `DevAssert` of `slicing_move_UE`: there is no slice of that index. -/
  | badIndex
  deriving DecidableEq

/-! ## The map -/

/-- Why a loop over the map ends early. -/
inductive Stop
  | outside
  | overlap
  deriving DecidableEq

/-- A loop over the map that may test the entries it comes to and may set them. -/
def sweep (size : ℕ) (test set : Bool) : List ℕ → (ℕ → Bool) → Except Stop (ℕ → Bool)
  | [], rbMap => .ok rbMap
  | i :: is, rbMap =>
      if size ≤ i then .error .outside
      else if test && rbMap i then .error .overlap
      else sweep size test set is (if set then Function.update rbMap i true else rbMap)

/-- The same loop for one range after the other. -/
def sweepAll (size : ℕ) (test : Bool) :
    List StaticSliceParam → (ℕ → Bool) → Except Stop (ℕ → Bool)
  | [], rbMap => .ok rbMap
  | p :: ps, rbMap =>
      match sweep size test true p.indices rbMap with
      | .error e => .error e
      | .ok rbMap => sweepAll size test ps rbMap

/-! ## The slices -/

/-- `_exists_slice`. -/
def existsSlice (s : List Slice) (id : ℤ) : Option ℕ := s.findIdx? fun x => (x.id : ℤ) = id

/-- `add_ue_list`. -/
def Slice.addUe (s : Slice) (ueId : ℕ) : Slice := { s with ues := s.ues ++ [ueId] }

/-- `remove_ue_list`. -/
def Slice.removeUe (s : Slice) (ueId : ℕ) : Slice := { s with ues := s.ues.erase ueId }

/-- `slicing_add_UE`. -/
def slicingAddUe (si : SliceInfo) (ueId : ℕ) : Except Fault SliceInfo :=
  if si.num = 0 then .error .dangling
  else .ok
    { s := si.s.modify 0 (·.addUe ueId)
      ueAssocSlice := Function.update si.ueAssocSlice ueId 0 }

/-- `slicing_remove_UE`. -/
def slicingRemoveUe (si : SliceInfo) (ueId : ℕ) : Except Fault SliceInfo :=
  match si.s[si.ueAssocSlice ueId]? with
  | none => .error .dangling
  | some x =>
      if ueId ∉ x.ues then .error .notFound
      else .ok
        { s := si.s.modify (si.ueAssocSlice ueId) (·.removeUe ueId)
          ueAssocSlice := Function.update si.ueAssocSlice ueId 255 }

/-- `_move_UE`. -/
def moveUe (si : SliceInfo) (ueId idx : ℕ) : Except Fault SliceInfo :=
  if si.num ≤ si.ueAssocSlice ueId ∨ si.num ≤ idx then .error .dangling
  else .ok
    { s := (si.s.modify (si.ueAssocSlice ueId) (·.removeUe ueId)).modify idx (·.addUe ueId)
      ueAssocSlice := Function.update si.ueAssocSlice ueId (idx % 256) }

/-- `slicing_move_UE`. -/
def slicingMoveUe (si : SliceInfo) (ueId : ℕ) (idx : ℤ) : Except Fault SliceInfo :=
  if ¬ (-1 ≤ idx ∧ idx < si.num) then .error .badIndex
  else if 0 ≤ idx then moveUe si ueId idx.toNat
  else .ok si

/-- `while (sr->UEs.head >= 0) _move_UE(s, assoc, sr->UEs.head, 0)`. -/
def drain (idx : ℕ) : ℕ → SliceInfo → Except Fault SliceInfo
  | fuel, si =>
      match (si.s[idx]?.map (·.ues)).bind (·.head?) with
      | none => .ok si
      | some ueId =>
          match fuel with
          | 0 => .error .spins
          | fuel + 1 =>
              match moveUe si ueId 0 with
              | .error e => .error e
              | .ok si => drain idx fuel si

/-- The table after the array of slices was moved down from `idx` on. -/
def shiftAssoc (maxMobiles idx : ℕ) (assoc : ℕ → ℕ) : ℕ → ℕ := fun i =>
  if i < maxMobiles ∧ idx < assoc i then assoc i - 1 else assoc i

/-- `_remove_slice`; `none` is its null pointer. -/
def removeSlice (maxMobiles : ℕ) (si : SliceInfo) (idx : ℕ) : Except Fault (Option SliceInfo) :=
  match si.s[idx]? with
  | none => .ok none
  | some sr =>
      match drain idx sr.ues.length si with
      | .error e => .error e
      | .ok si => .ok (some
          { s := si.s.eraseIdx idx, ueAssocSlice := shiftAssoc maxMobiles idx si.ueAssocSlice })

/-- `remove_static_slice_dl` and `remove_static_slice_ul`: the slices afterwards and what is
returned. -/
def removeStaticSlice (maxMobiles : ℕ) (si : SliceInfo) (sliceIdx : ℕ) :
    Except Fault (SliceInfo × ℤ) :=
  if sliceIdx = 0 then .ok (si, 0)
  else
    match removeSlice maxMobiles si sliceIdx with
    | .error e => .error e
    | .ok none => .ok (si, 0)
    | .ok (some si) => .ok (si, 1)

/-- A slice is given a new label, algorithm and range, as far as there are any. -/
def Slice.mod (s : Slice) (label : Option String) (algo : Option SchedAlgo)
    (p : Option StaticSliceParam) : Slice :=
  { s with
    label := if label.isSome then label else s.label
    algo := (algo.map (·.install)).getD s.algo
    algoData := p.getD s.algoData }

/-- The ranges the check for a modification goes through: the new one in place of the old one. -/
def rangesWith (s : List Slice) (id : ℤ) (p : Option StaticSliceParam) : List StaticSliceParam :=
  s.map fun x => if (x.id : ℤ) = id then p.getD x.algoData else x.algoData

/-- `MAX_STATIC_SLICES`. -/
def maxStaticSlices : ℕ := 4

/-- `addmod_static_slice_dl` and `addmod_static_slice_ul`: the slices afterwards and what is
returned. `fresh` says whether there is memory for a new slice. -/
def addmodStaticSlice (v : Link) (si : SliceInfo) (id : ℤ) (label : Option String)
    (algo : Option SchedAlgo) (p : Option StaticSliceParam) (fresh : Bool) :
    Except Fault (SliceInfo × ℤ) :=
  if p.any (fun p => p.posHigh < p.posLow + v.gap) then .ok (si, -1)
  else
    match existsSlice si.s id with
    | some index =>
        match sweepAll v.mapSize true (rangesWith si.s id p) (fun _ => false) with
        | .error .outside => .error .outside
        | .error .overlap => .ok (si, -33)
        | .ok _ => .ok ({ si with s := si.s.modify index (·.mod label algo p) }, index)
    | none =>
        match p with
        | none => .ok (si, -100)
        | some p =>
            if maxStaticSlices ≤ si.num then .ok (si, -2)
            else
              match sweepAll v.mapSize false (si.s.map (·.algoData)) (fun _ => false) with
              | .error _ => .error .outside
              | .ok rbMap =>
                  match sweep v.mapSize true false p.indices rbMap with
                  | .error .outside => .error .outside
                  | .error .overlap => .ok (si, -3)
                  | .ok _ =>
                      match algo with
                      | none => .ok (si, -14)
                      | some algo =>
                          if ¬ fresh then .ok (si, -4)
                          else
                            -- slice_id_t has eight bits
                            .ok ({ si with s := si.s ++
                              [⟨(id % 256).toNat, label, algo.install, p, []⟩] }, si.num)

/-! ## A MAC and its slices -/

/-- The slices and the UEs of the MAC, `UE_info.list`. -/
structure Mac where
  slices : SliceInfo
  ues : List ℕ

inductive Call
  | addmod (id : ℤ) (label : Option String) (algo : Option SchedAlgo)
      (p : Option StaticSliceParam) (fresh : Bool)
  | remove (sliceIdx : ℕ)
  | addUe (ueId : ℕ)
  | moveUe (ueId : ℕ) (idx : ℤ)
  | removeUe (ueId : ℕ)
  deriving DecidableEq

/-- What a call returned, with the slices before and after it. -/
structure Returned where
  before : SliceInfo
  code : ℤ
  after : SliceInfo

/-- A call that returns a code. -/
def coded (m : Mac) (r : Except Fault (SliceInfo × ℤ)) : Except Fault (Mac × List Returned) :=
  r.map fun q => ({ m with slices := q.1 }, [⟨m.slices, q.2, q.1⟩])

def Mac.step (v : Link) (maxMobiles : ℕ) (m : Mac) : Call → Except Fault (Mac × List Returned)
  | .addmod id label algo p fresh => coded m (addmodStaticSlice v m.slices id label algo p fresh)
  | .remove sliceIdx => coded m (removeStaticSlice maxMobiles m.slices sliceIdx)
  | .addUe ueId =>
      (slicingAddUe m.slices ueId).map fun si => (⟨si, m.ues ++ [ueId]⟩, [])
  | .moveUe ueId idx =>
      (slicingMoveUe m.slices ueId idx).map fun si => ({ m with slices := si }, [])
  | .removeUe ueId =>
      (slicingRemoveUe m.slices ueId).map fun si => (⟨si, m.ues.erase ueId⟩, [])

/-- A UE is added if it is not there, and moved and removed if it is; the table has an entry for
each UE. -/
def Mac.Legal (maxMobiles : ℕ) (m : Mac) : Call → Prop
  | .addUe ueId => ueId < maxMobiles ∧ ueId ∉ m.ues
  | .moveUe ueId _ => ueId ∈ m.ues
  | .removeUe ueId => ueId ∈ m.ues
  | _ => True

/-- The bandwidth of the carrier. -/
inductive Bandwidth
  | n6
  | n15
  | n25
  | n50
  | n75
  | n100
  deriving DecidableEq

/-- `to_prb`. -/
def toPrb : Bandwidth → ℕ
  | .n6 => 6
  | .n15 => 15
  | .n25 => 25
  | .n50 => 50
  | .n75 => 75
  | .n100 => 100

/-- `to_rbg`. -/
def toRbg : Bandwidth → ℕ
  | .n6 => 6
  | .n15 => 8
  | .n25 => 13
  | .n50 => 17
  | .n75 => 19
  | .n100 => 25

/-- What the carrier has of the resources shared out. -/
def Link.carrier : Link → Bandwidth → ℕ
  | .dl => toRbg
  | .ul => toPrb

/-- The slices `static_dl_init` and `static_ul_init` start with: one, which has all of the
carrier. -/
def staticInit (v : Link) (bw : Bandwidth) (algo : SchedAlgo) : SliceInfo where
  s := [⟨0, some "default", { algo with data := none }.install, ⟨0, v.carrier bw - 1⟩, []⟩]
  ueAssocSlice := fun _ => 255

def Mac.init (v : Link) (bw : Bandwidth) (algo : SchedAlgo) : Mac := ⟨staticInit v bw algo, []⟩

end OaiCu.LteMac
