import Mathlib.Data.List.Range
import Mathlib.Data.Nat.Bitwise

/-!
# O-DU MAC: the demultiplexer (`mac_demux.c`)

`unpackRxData` goes through the subPDUs of an uplink block with two cursors: the index of the next
octet, a number of 8 bits, and the number of octets that are left, one of 16 bits.
-/

namespace OaiCu.OduMac

def MAC_LCID_CCCH : ℕ := 0
def MAC_LCID_MAX : ℕ := 32
def MAC_LCID_SHORT_BSR : ℕ := 61
def MAC_LCID_LONG_BSR : ℕ := 62
def MAC_LCID_PADDING : ℕ := 63
def MAX_NUM_LOGICAL_CHANNEL_GROUPS : ℕ := 8

/-- The length of an SDU of the CCCH. -/
def CCCH_SDU_LEN : ℕ := 6

/-- `shortBsrBytesTable`. -/
def shortBsrBytesTable : List ℕ :=
  [0, 10, 14, 20, 28, 38, 53, 74, 102, 142, 198, 276, 384, 535, 745, 1038, 1446, 2014, 2806,
    3909, 5446, 7587, 10570, 14726, 20516, 28581, 39818, 55474, 77284, 107669, 150000, 150001]

/-- `longBsrBytesTable`. -/
def longBsrBytesTable : List ℕ :=
  [0, 10, 11, 12, 13, 14, 15, 16, 17, 18, 19, 20, 22, 23, 25, 26, 28, 30, 32, 34, 36, 38, 40, 43,
    46, 49, 52, 55, 59, 62, 66, 71, 75, 80, 85, 91, 97, 103, 110, 117, 124, 132, 141, 150, 160,
    170, 181, 193, 205, 218, 233, 248, 264, 281, 299, 318, 339, 361, 384, 409, 436, 464, 494,
    526, 560, 597, 635, 677, 720, 767, 817, 870, 926, 987, 1051, 1119, 1191, 1269, 1351, 1439,
    1532, 1631, 1737, 1850, 1970, 2098, 2234, 2379, 2533, 2698, 2873, 3059, 3258, 3469, 3694,
    3934, 4189, 4461, 4751, 5059, 5387, 5737, 6109, 6506, 6928, 7378, 7857, 8367, 8910, 9488,
    10104, 10760, 11458, 12202, 12994, 13838, 14736, 15692, 16711, 17795, 18951, 20181, 21491,
    22885, 24371, 25953, 27638, 29431, 31342, 33376, 35543, 37850, 40307, 42923, 45709, 48676,
    51836, 55200, 58784, 62599, 66663, 70990, 75598, 80505, 85730, 91295, 97221, 103532, 110252,
    117409, 125030, 133146, 141789, 150992, 160793, 171231, 182345, 194182, 206786, 220209,
    234503, 249725, 265935, 283197, 301579, 321155, 342002, 364202, 387842, 413018, 439827,
    468377, 498780, 531156, 565634, 602350, 641449, 683087, 727427, 774645, 824928, 878475,
    935498, 996222, 1060888, 1129752, 1203085, 1281179, 1364342, 1452903, 1547213, 1647644,
    1754595, 1868488, 1989774, 2118933, 2256475, 2402946, 2558924, 2725027, 2901912, 3090279,
    3290873, 3504487, 3731968, 3974215, 4232186, 4506902, 4799451, 5110989, 5442750, 5796046,
    6172275, 6572925, 6999582, 7453933, 7937777, 8453028, 9001725, 9586039, 10208280, 10870913,
    11576557, 12328006, 13128233, 13980403, 14887889, 15854280, 16883401, 17979324, 19146385,
    20389201, 21712690, 23122088, 24622972, 26221280, 27923336, 29735875, 31666069, 33721553,
    35910462, 38241455, 40723756, 43367187, 46182206, 49179951, 52372284, 55771835, 59392055,
    63247269, 67352729, 71724679, 76380419, 81338368, 81338368, 0]

/-- What the demultiplexer hands on: a message for the DU application, an SDU for the RLC, or a
buffer report for the scheduler. -/
inductive UlMsg
  | ulCcch (crnti : ℕ) (pdu : List UInt8)
  | ulData (rnti lcId : ℕ) (pdu : List UInt8)
  | shortBsr (crnti lcgId bufferSize : ℕ)
  | longBsr (crnti : ℕ) (dataVolInfo : List (ℕ × ℕ))
deriving DecidableEq, Repr

/-- A subPDU that was handed on, with the indexes of the octets it was read from. -/
structure RxSubPdu where
  octets : List ℕ
  msg : UlMsg
deriving DecidableEq, Repr

/-- The cursors. -/
structure RxCursor where
  rxPduIdx : ℕ
  pduLen : ℕ
deriving DecidableEq, Repr

/-- Octets that were read. -/
def RxCursor.skip (c : RxCursor) (octets : ℕ) : RxCursor where
  rxPduIdx := (c.rxPduIdx + octets) % 2 ^ 8
  pduLen := (c.pduLen + 2 ^ 16 - octets % 2 ^ 16) % 2 ^ 16

/-- One round of the loop. -/
inductive RxStep
  | next (subPdu : RxSubPdu) (c : RxCursor)
  | again
  | stop
deriving DecidableEq, Repr

/-- An octet of the block. -/
def octet (block : List UInt8) (idx : ℕ) : Option ℕ := (block[idx]?).map (·.toNat)

/-- The octets that are copied from the block. -/
def copy (block : List UInt8) (idx length : ℕ) : Option (List UInt8) :=
  if idx + length ≤ block.length then some ((block.drop idx).take length) else none

/-- An SDU of the CCCH has a fixed length. -/
def unpackCcch (memory : Bool) (rnti : ℕ) (block : List UInt8) (c : RxCursor) : Option RxStep :=
  if memory then do
    let c' := c.skip 1
    let pdu ← copy block c'.rxPduIdx CCCH_SDU_LEN
    return .next ⟨c.rxPduIdx :: List.range' c'.rxPduIdx CCCH_SDU_LEN, .ulCcch rnti pdu⟩
      (c'.skip CCCH_SDU_LEN)
  else some .stop

/-- An SDU of a logical channel. The flag of the length is taken from bit 7, and the second octet of
the length masks the first one. -/
def unpackSdu (memory : Bool) (rnti : ℕ) (block : List UInt8) (first : ℕ) (c : RxCursor) :
    Option RxStep := do
  let c' := c.skip 1
  let length ← octet block c'.rxPduIdx
  let (header, length, c') ←
    if first.testBit 7 then do
      let c'' := c'.skip 1
      let low ← octet block c''.rxPduIdx
      pure ([c.rxPduIdx, c'.rxPduIdx, c''.rxPduIdx], (length <<< 8 &&& low) % 2 ^ 16, c'')
    else pure ([c.rxPduIdx, c'.rxPduIdx], length, c')
  if memory then do
    let c' := c'.skip 1
    let pdu ← copy block c'.rxPduIdx length
    return .next ⟨header ++ List.range' c'.rxPduIdx length, .ulData rnti (first % 2 ^ 6) pdu⟩
      (c'.skip length)
  else return .stop

/-- The two fields of a short BSR are in one octet. -/
def unpackShortBsr (rnti : ℕ) (block : List UInt8) (c : RxCursor) : Option RxStep := do
  let c' := c.skip 1
  let bsr ← octet block c'.rxPduIdx
  let bufferSize ← shortBsrBytesTable[bsr % 2 ^ 5]?
  return .next ⟨[c.rxPduIdx, c'.rxPduIdx], .shortBsr (rnti % 2 ^ 8) (bsr / 2 ^ 5) bufferSize⟩
    (c'.skip 1)

/-- The octets of a long BSR for the groups from `lcgIdx` on. -/
def longBsrVols (block : List UInt8) (lcgs : ℕ) :
    ℕ → ℕ → RxCursor → Option (List ℕ × List (ℕ × ℕ) × RxCursor)
  | 0, _, c => some ([], [], c)
  | left + 1, lcgIdx, c =>
    if lcgs.testBit lcgIdx then do
      let bsrIdx ← octet block c.rxPduIdx
      let dataVol ← longBsrBytesTable[bsrIdx]?
      let (octets, vols, c') ← longBsrVols block lcgs left (lcgIdx + 1) (c.skip 1)
      return (c.rxPduIdx :: octets, if 0 < bsrIdx then (lcgIdx, dataVol) :: vols else vols, c')
    else longBsrVols block lcgs left (lcgIdx + 1) c

/-- A long BSR has an octet for the groups and one for each group. -/
def unpackLongBsr (rnti : ℕ) (block : List UInt8) (c : RxCursor) : Option RxStep := do
  let c' := c.skip 1
  let lcgs ← octet block c'.rxPduIdx
  let (octets, vols, c'') ←
    longBsrVols block lcgs MAX_NUM_LOGICAL_CHANNEL_GROUPS 0 (c'.skip 1)
  return .next ⟨c.rxPduIdx :: c'.rxPduIdx :: octets, .longBsr (rnti % 2 ^ 8) vols⟩ c''

/-- The subPDU at the cursor, where `memory` says whether the buffer for an SDU is allocated when so many
octets are left. The logical channels without a branch of their own leave the cursors as they are. -/
def unpackSubPdu (memory : ℕ → Bool) (rnti : ℕ) (block : List UInt8) (c : RxCursor) :
    Option RxStep := do
  let first ← octet block c.rxPduIdx
  let lcId := first % 2 ^ 6
  if lcId = MAC_LCID_CCCH then unpackCcch (memory c.pduLen) rnti block c
  else if lcId ≤ MAC_LCID_MAX then unpackSdu (memory c.pduLen) rnti block first c
  else if lcId < MAC_LCID_SHORT_BSR then return .again
  else if lcId = MAC_LCID_SHORT_BSR then unpackShortBsr rnti block c
  else if lcId = MAC_LCID_LONG_BSR then unpackLongBsr rnti block c
  else return .stop

/-- How a run of the loop ends. -/
inductive RxOutcome
  | returned
  | overread
  | unfinished
deriving DecidableEq, Repr

/-- The loop of `unpackRxData`, `fuel` rounds of it, with the subPDUs that are handed on. -/
def unpackLoop (memory : ℕ → Bool) (rnti : ℕ) (block : List UInt8) :
    ℕ → RxCursor → RxOutcome × List RxSubPdu
  | 0, c => (if c.pduLen = 0 then .returned else .unfinished, [])
  | fuel + 1, c =>
    if c.pduLen = 0 then (.returned, [])
    else
      match unpackSubPdu memory rnti block c with
      | none => (.overread, [])
      | some .stop => (.returned, [])
      | some .again => unpackLoop memory rnti block fuel c
      | some (.next subPdu c) =>
        let (outcome, subPdus) := unpackLoop memory rnti block fuel c
        (outcome, subPdu :: subPdus)

/-- `unpackRxData`. -/
def unpackRxData (memory : ℕ → Bool) (rnti : ℕ) (block : List UInt8) (fuel : ℕ) :
    RxOutcome × List RxSubPdu :=
  unpackLoop memory rnti block fuel ⟨0, block.length % 2 ^ 16⟩

end OaiCu.OduMac
