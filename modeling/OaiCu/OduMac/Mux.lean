import Mathlib.Data.List.Range
import Mathlib.Data.Nat.Bitwise
import OaiCu.OduMac.Demux

/-!
# O-DU MAC: the multiplexer (`mac_mux.c`)

`macMuxPdu` writes the subPDUs of a downlink block into a buffer of zeros, the subheaders bit by bit
with `packBytes` and the payloads octet by octet.
-/

namespace OaiCu.OduMac

def MAC_LCID_CRI : ℕ := 62
def MAX_CRI_SIZE : ℕ := 6

/-- A MAC CE. -/
structure MacCe where
  macCeLcid : ℕ
  macCeValue : Vector UInt8 MAX_CRI_SIZE

/-- An SDU, with a length of 16 bits. -/
structure MacDlInfo where
  lcId : ℕ
  dlPdu : List UInt8
  length_lt : dlPdu.length < 2 ^ 16

/-- The buffer and the two cursors. `bytePos` has 16 bits, like the size of the buffer, and is never
behind its end. -/
structure TxCursor where
  macPdu : List UInt8
  bytePos : ℕ
  bitPos : ℕ
deriving DecidableEq, Repr

/-- A write of bits outside of the buffer has no result. -/
def TxCursor.setBits (c : TxCursor) (bits : UInt8) : Option TxCursor :=
  if c.bytePos < c.macPdu.length then
    some { c with macPdu := c.macPdu.modify c.bytePos (· ||| bits) }
  else none

/-- A field is written at the bit position, or its first bits are and the others go to the next
octets. -/
def packBytes (c : TxCursor) (val valSize : ℕ) : Option TxCursor :=
  if valSize ≤ c.bitPos + 1 then do
    let bytePart1 := UInt8.ofNat (val <<< (c.bitPos + 1 - valSize))
    let c' ← c.setBits bytePart1
    return if c.bitPos < valSize then { c' with bytePos := c.bytePos + 1, bitPos := 7 }
      else { c' with bitPos := c.bitPos - valSize }
  else do
    let bytePart1Size := c.bitPos + 1
    let bytePart2Size := valSize - bytePart1Size
    let bytePart1 := UInt8.ofNat ((val >>> bytePart2Size) <<< (c.bitPos + 1 - bytePart1Size))
    let bytePart2 := val % 2 ^ bytePart2Size
    let c' ← c.setBits bytePart1
    packBytes { c' with bytePos := c.bytePos + 1, bitPos := 7 } bytePart2 bytePart2Size
termination_by valSize
decreasing_by omega

/-- The octets are copied into the buffer. -/
def TxCursor.copyIn (c : TxCursor) (octets : List UInt8) : Option TxCursor :=
  if c.bytePos + octets.length ≤ c.macPdu.length then
    some { c with
      macPdu := c.macPdu.take c.bytePos ++ octets ++ c.macPdu.drop (c.bytePos + octets.length)
      bytePos := c.bytePos + octets.length }
  else none

/-- The fields R/R/LCID and the value of a CE. Only the contention resolution identity is packed. -/
def packMacCe (c : TxCursor) (ce : MacCe) : Option TxCursor :=
  let lcid := ce.macCeLcid % 2 ^ 8
  if lcid = MAC_LCID_CRI then do
    let c ← packBytes c 0 2
    let c ← packBytes c lcid 6
    c.copyIn ce.macCeValue.toList
  else some c

/-- The fields R/F/LCID/L and the octets of an SDU. -/
def packMacSdu (c : TxCursor) (info : MacDlInfo) : Option TxCursor :=
  let lcid := info.lcId % 2 ^ 8
  if lcid ≤ MAC_LCID_MAX then do
    let lenField := info.dlPdu.length
    let FBit := if 255 < lenField then 1 else 0
    let lenFieldSize := if 255 < lenField then 16 else 8
    let c ← packBytes c 0 1
    let c ← packBytes c FBit 1
    let c ← packBytes c lcid 6
    let c ← packBytes c lenField lenFieldSize
    c.copyIn info.dlPdu
  else some c

/-- A subheader of padding goes in front of what is left. -/
def packPadding (c : TxCursor) (tbSize : ℕ) : Option TxCursor :=
  if c.bytePos < tbSize then do
    let c ← packBytes c 0 2
    packBytes c MAC_LCID_PADDING 6
  else some c

/-- `macMuxPdu`: the block, if nothing is written outside of it. -/
def macMuxPdu (dlData : List MacDlInfo) (macCeData : List MacCe) (tbSize : ℕ) :
    Option (List UInt8) := do
  let c ← macCeData.foldlM packMacCe ⟨List.replicate tbSize 0, 0, 7⟩
  let c ← dlData.foldlM packMacSdu c
  let c ← packPadding c tbSize
  return c.macPdu

end OaiCu.OduMac
