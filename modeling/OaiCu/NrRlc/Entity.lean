import Mathlib.Data.List.Sort
import Mathlib.Algebra.Ring.Int.Defs
import Mathlib.Algebra.Ring.Nat

/-!
# What the RLC entities share (`nr_rlc_entity.h`)

An entity answers calls. The calls it makes to its environment on the way are recorded as
events, in the order in which they are made; a call that does not return ends in a `Fault`.
-/

namespace OaiCu.NrRlc

/-- `NR_SDU_MAX`. -/
def nrSduMax : ℕ := 16000

/-- A timer that runs since `start` and lasts `t` has expired at `now`; times are
unsigned 64-bit numbers. -/
def timerExpired (now start t : ℕ) : Bool :=
  !(start == 0 || decide (now ≤ (start + t) % 2 ^ 64))

/-- The ways in which a call can end other than by returning. -/
inductive Fault where
  /-- `exit(1)` after a fatal log message. -/
  | exit
  /-- A `NULL` pointer is dereferenced. -/
  | nullPointer
  /-- A stale pointer is used, to a node that was freed or has gone to another list. -/
  | freedNode
  /-- A node is in two lists, and one of them is used. -/
  | sharedNode
deriving DecidableEq, Repr

/-- A call on an entity: the function pointers of `nr_rlc_entity_t`. A buffer is a byte list
whose length is the size argument. -/
inductive Op where
  | recvPdu (buffer : List UInt8)
  | recvSdu (buffer : List UInt8) (sduId : ℤ)
  | generatePdu (buffer : List UInt8)
  | setTime (now : UInt64)
  | discardSdu (sduId : ℤ)
  | reestablishment
deriving DecidableEq, Repr

/-- The calls that the receiver answers. -/
inductive RxOp where
  | recvPdu (buffer : List UInt8)
  | setTime (now : UInt64)
deriving DecidableEq, Repr

def RxOp.op : RxOp → Op
  | .recvPdu buffer => .recvPdu buffer
  | .setTime now => .setTime now

/-- One `memcpy` of `reassemble_and_deliver`: `len` bytes from offset `src` of the
data of a segment of `size` bytes to offset `dst` of the SDU buffer. -/
structure Copy where
  dst : ℤ
  src : ℤ
  len : ℤ
  size : ℤ
deriving DecidableEq, Repr

/-- What the environment of an entity sees of a call. -/
inductive Event where
  | deliverSdu (sdu : List UInt8)
  | sduSuccessfulDelivery (sduId : ℤ)
  | maxRetxReached
  | memcpy (copy : Copy)
  /-- `generate_pdu` returns this PDU. -/
  | sendPdu (pdu : List UInt8)
deriving DecidableEq, Repr

/-- The copy reads inside its segment and writes inside the SDU buffer. -/
def Copy.InBounds (c : Copy) : Prop :=
  0 ≤ c.src ∧ c.src + c.len ≤ c.size ∧ 0 ≤ c.dst ∧ c.dst + c.len ≤ nrSduMax

instance (c : Copy) : Decidable c.InBounds := by
  unfold Copy.InBounds; infer_instance

/-!
## SDUs to send and their segments (`nr_rlc_sdu.c`)

An SDU is shared by its segments: a segment holds the number of its SDU in the heap
of SDUs. Segments are list nodes; `addr` is the identity of the node, which is what
a comparison of two pointers looks at. Numbers are never used twice.
-/

/-- `nr_rlc_sdu_t`. -/
structure Sdu where
  sn : ℤ
  upperLayerId : ℤ
  data : List UInt8
  retxCount : ℤ
  /-- Incremented each time the SDU is segmented. -/
  refCount : ℕ
  /-- Incremented each time a segment is freed. -/
  freeCount : ℕ
deriving DecidableEq, Repr

def Sdu.size (s : Sdu) : ℕ := s.data.length

/-- `nr_rlc_sdu_segment_t`. -/
structure Segment where
  addr : ℕ
  sdu : ℕ
  size : ℕ
  so : ℕ
  isFirst : Bool
  isLast : Bool
deriving DecidableEq, Repr

/-- The SDU made by `nr_rlc_new_sdu`; the SN is set when it is first sent. -/
def newSdu (buffer : List UInt8) (upperLayerId : ℤ) : Sdu :=
  { sn := -1, upperLayerId, data := buffer, retxCount := -1, refCount := 1, freeCount := 0 }

/-- The segment made by `nr_rlc_new_sdu`: the whole SDU. -/
def newSegment (addr sdu size : ℕ) : Segment :=
  { addr, sdu, size, so := 0, isFirst := true, isLast := true }

/-- What `nr_rlc_free_sdu_segment` does to the SDU. -/
def Sdu.freeSegment (s : Sdu) : Sdu := { s with freeCount := s.freeCount + 1 }

/-- The SDU goes with its last segment. -/
def Sdu.isFreed (s : Sdu) : Bool := s.freeCount == s.refCount

/-- The list up to and including the node at `addr`. -/
def cutAfter (addr : ℕ) : List Segment → Option (List Segment)
  | [] => none
  | s :: l => if s.addr = addr then some [s] else (cutAfter addr l).map (s :: ·)

/-- `nr_rlc_sdu_segment_list_append`: what follows the node that `end` points to is
cut off by the new link. -/
def segmentListAppend (list : List Segment) (endAddr : Option ℕ) (sdu : Segment) :
    Except Fault (List Segment × Option ℕ) :=
  match list, endAddr with
  | [], _ => .ok ([sdu], some sdu.addr)
  | _ :: _, none => .error .nullPointer
  | list, some addr =>
      match cutAfter addr list with
      | none => .error .freedNode
      | some front => .ok (front ++ [sdu], some sdu.addr)

/-- `nr_rlc_sdu_segment_list_add`: `sdu` goes before the first element that is after it,
by SN and for one SN by SO. -/
def segmentListAdd (snCompare : ℤ → ℤ → ℤ) (sn : Segment → ℤ) (list : List Segment)
    (sdu : Segment) : List Segment :=
  list.orderedInsert
    (fun sdu cur => snCompare (sn cur) (sn sdu) > 0 ∨ (sn cur = sn sdu ∧ cur.so > sdu.so)) sdu

end OaiCu.NrRlc
