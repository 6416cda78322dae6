import Mathlib.Data.List.Sort
import OaiCu.Lib.Machine
import Mathlib.Algebra.Ring.Int.Defs
import Mathlib.Algebra.Ring.Nat

/-!
# PDCP entities (`nr_pdcp_entity.c`, `nr_pdcp_sdu.c`)

The counters `tx_next`, `rx_next`, `rx_deliv`, `rx_reord` and COUNT are `uint32_t`: they
are natural numbers here, cut to 32 bits where the source can overflow. The SN is an `int`
and is compared as one.
-/

namespace OaiCu.NrPdcp

/-- `nr_pdcp_entity_type_t`. -/
inductive EntityType
  | drbAm
  | drbUm
  | srb
deriving DecidableEq, Repr

/-- The ciphering and integrity functions with their keys. Both get the bearer, the COUNT and
the direction; ciphering is done in place and the MAC-I has four bytes. -/
structure Security where
  cipher : ℤ → ℕ → ℕ → List UInt8 → List UInt8
  integrity : ℤ → ℕ → ℕ → List UInt8 → List UInt8
  cipher_length : ∀ b c d l, (cipher b c d l).length = l.length
  integrity_length : ∀ b c d l, (integrity b c d l).length = 4

/-- What `new_nr_pdcp_entity` sets for good. The RRC gives SNs of 12 or 18 bits. -/
structure PdcpConfig where
  type : EntityType
  isGnb : Bool
  rbId : ℤ
  snSize : ℕ
  snSize_eq : snSize = 12 ∨ snSize = 18
  /-- In ms, -1 for infinity. -/
  tReordering : ℤ
  hasCiphering : Bool
  hasIntegrity : Bool
  security : Security

namespace PdcpConfig

variable (cfg : PdcpConfig)

def snMax : ℕ := 2 ^ cfg.snSize - 1

def windowSize : ℕ := 2 ^ (cfg.snSize - 1)

def headerSize : ℕ := if cfg.snSize = 12 then 2 else 3

/-- SRBs always have MAC-I, even if integrity is not active. -/
def integritySize : ℕ := if cfg.hasIntegrity || cfg.type == .srb then 4 else 0

/-- The direction of the PDUs that the entity sends. -/
def txDirection : ℕ := if cfg.isGnb then 1 else 0

/-- The direction of the PDUs that the entity receives. -/
def rxDirection : ℕ := if cfg.isGnb then 0 else 1

end PdcpConfig

/-- `nr_pdcp_sdu_t`. -/
structure PdcpSdu where
  count : ℕ
  buffer : List UInt8
deriving DecidableEq, Repr

/-- `nr_pdcp_sdu_list_add`: before the first SDU of a larger COUNT. -/
def sduListAdd (l : List PdcpSdu) (sdu : PdcpSdu) : List PdcpSdu :=
  l.orderedInsert (fun a b => a.count < b.count) sdu

/-- `nr_pdcp_sdu_in_list`. -/
def sduInList (l : List PdcpSdu) (count : ℕ) : Bool := l.any (·.count == count)

/-- The state variables of `nr_pdcp_entity_t`. -/
structure PdcpEntity where
  txNext : ℕ := 0
  rxNext : ℕ := 0
  rxDeliv : ℕ := 0
  rxReord : ℕ := 0
  tCurrent : ℕ := 0
  /-- An `int`; 0 if the timer does not run. -/
  tReorderingStart : ℤ := 0
  rxList : List PdcpSdu := []
  rxSize : ℤ := 0
deriving DecidableEq, Repr

inductive Log
  | badPdu
  | notDataPdu
  | integrityFailed
  | discarded
deriving DecidableEq, Repr

/-- What the environment of an entity sees. -/
inductive Output
  | deliverSdu (buf : List UInt8)
  | deliverPdu (buf : List UInt8) (sduId : ℤ)
  | log (line : Log)
deriving DecidableEq, Repr

/-! ## Receiving -/

/-- The fix-up of `buffer[0]` for a DRB: the PDU is taken for a data PDU. -/
def setDataBit (cfg : PdcpConfig) (buffer : List UInt8) : List UInt8 × List Output :=
  if cfg.type ≠ .srb ∧ buffer.headD 0 &&& 0x80 = 0 then
    (buffer.set 0 (buffer.headD 0 ||| 128), [.log .notDataPdu])
  else (buffer, [])

/-- `rcvd_sn`. The source reads the header before it knows that the PDU is long enough; a
short PDU is then dropped whatever was read. -/
def rcvdSn (cfg : PdcpConfig) (buffer : List UInt8) : ℕ :=
  let byte (i : ℕ) := (buffer.getD i 0).toNat
  if cfg.snSize = 12 then ((byte 0 &&& 0xf) <<< 8) ||| byte 1
  else ((byte 0 &&& 0x3) <<< 16) ||| (byte 1 <<< 8) ||| byte 2

/-- `rcvd_hfn`. -/
def rcvdHfn (cfg : PdcpConfig) (rxDeliv sn : ℕ) : ℕ :=
  let rxDelivSn := rxDeliv &&& cfg.snMax
  let rxDelivHfn := rxDeliv >>> cfg.snSize
  if (sn : ℤ) < rxDelivSn - cfg.windowSize then (rxDelivHfn + 1) % 2 ^ 32
  else if sn ≥ rxDelivSn + cfg.windowSize then (rxDelivHfn + 2 ^ 32 - 1) % 2 ^ 32
  else rxDelivHfn

/-- `rcvd_count`. -/
def rcvdCount (cfg : PdcpConfig) (rxDeliv sn : ℕ) : ℕ :=
  (rcvdHfn cfg rxDeliv sn <<< cfg.snSize) % 2 ^ 32 ||| sn

/-- The PDU, deciphered behind its header. -/
def decipher (cfg : PdcpConfig) (count : ℕ) (buffer : List UInt8) : List UInt8 :=
  if cfg.hasCiphering then
    buffer.take cfg.headerSize ++
      cfg.security.cipher cfg.rbId count cfg.rxDirection (buffer.drop cfg.headerSize)
  else buffer

/-- The MAC-I at the end of the deciphered PDU is the one of the rest of it. -/
def integrityOk (cfg : PdcpConfig) (count : ℕ) (buffer : List UInt8) : Bool :=
  cfg.security.integrity cfg.rbId count cfg.rxDirection
      (buffer.take (buffer.length - cfg.integritySize)) ==
    (buffer.drop (buffer.length - cfg.integritySize)).take 4

/-- Delivery from `count` on, up to a discontinuity or the end of the list: where it ends,
what stays in the list and what is delivered. -/
def deliverFrom (count : ℕ) : List PdcpSdu → ℕ × List PdcpSdu × List PdcpSdu
  | [] => (count, [], [])
  | cur :: l =>
      if count = cur.count then
        let (count', rest, delivered) := deliverFrom ((count + 1) % 2 ^ 32) l
        (count', rest, cur :: delivered)
      else (count, cur :: l, [])

/-- The delivery loop, started at `count`. -/
def deliverSdus (e : PdcpEntity) (count : ℕ) : PdcpEntity × List Output :=
  let (count', rest, delivered) := deliverFrom count e.rxList
  ({ e with
      rxList := rest
      rxSize := e.rxSize - (delivered.map (·.buffer.length)).sum
      rxDeliv := count' },
    delivered.map fun sdu => .deliverSdu sdu.buffer)

/-- `t_reordering_start`, an `int`, from `t_current`. -/
def startTime (tCurrent : ℕ) : ℤ := Int.bmod tCurrent (2 ^ 32)

/-- Stop and reset t-Reordering. -/
def stopReordering (e : PdcpEntity) : PdcpEntity :=
  if e.tReorderingStart ≠ 0 ∧ e.rxDeliv ≥ e.rxReord then { e with tReorderingStart := 0 }
  else e

def startReordering (e : PdcpEntity) : PdcpEntity :=
  if e.tReorderingStart = 0 ∧ e.rxDeliv < e.rxNext then
    { e with
      rxReord := e.rxNext
      tReorderingStart := startTime e.tCurrent }
  else e

/-- `nr_pdcp_entity_recv_pdu` for an SDU that is not discarded. `size` is what the PDU takes
without its header. -/
def storeSdu (e : PdcpEntity) (sdu : PdcpSdu) (size : ℕ) : PdcpEntity × List Output :=
  let e :=
    { e with
      rxList := sduListAdd e.rxList sdu
      rxSize := e.rxSize + size
      rxNext := if sdu.count ≥ e.rxNext then (sdu.count + 1) % 2 ^ 32 else e.rxNext }
  let (e, out) := if sdu.count = e.rxDeliv then deliverSdus e e.rxDeliv else (e, [])
  (startReordering (stopReordering e), out)

/-- `nr_pdcp_entity_recv_pdu` for a PDU that is long enough. A failed integrity check is
logged; the PDU goes on. -/
def recvDataPdu (cfg : PdcpConfig) (e : PdcpEntity) (buffer : List UInt8) :
    PdcpEntity × List Output :=
  let count := rcvdCount cfg e.rxDeliv (rcvdSn cfg buffer)
  let buffer := decipher cfg count buffer
  let failed :=
    if cfg.hasIntegrity && !integrityOk cfg count buffer then [.log .integrityFailed] else []
  if count < e.rxDeliv || sduInList e.rxList count then (e, failed ++ [.log .discarded])
  else
    let sdu : PdcpSdu :=
      { count
        buffer := (buffer.take (buffer.length - cfg.integritySize)).drop cfg.headerSize }
    let (e, out) := storeSdu e sdu (buffer.length - cfg.headerSize)
    (e, failed ++ out)

/-- `nr_pdcp_entity_recv_pdu`. -/
def recvPdu (cfg : PdcpConfig) (e : PdcpEntity) (buffer : List UInt8) :
    PdcpEntity × List Output :=
  if buffer.length < 1 then (e, [.log .badPdu])
  else
    let (buffer, hack) := setDataBit cfg buffer
    if buffer.length < cfg.headerSize + cfg.integritySize + 1 then
      (e, hack ++ [.log .badPdu])
    else
      let (e, out) := recvDataPdu cfg e buffer
      (e, hack ++ out)

/-! ## Sending -/

/-- The header that `nr_pdcp_entity_recv_sdu` writes. -/
def txHeader (cfg : PdcpConfig) (sn : ℕ) : List UInt8 :=
  let dcBit := if cfg.type = .drbAm ∨ cfg.type = .drbUm then 0x80 else 0
  if cfg.snSize = 12 then
    [UInt8.ofNat (dcBit ||| ((sn >>> 8) &&& 0xf)), UInt8.ofNat (sn &&& 0xff)]
  else
    [UInt8.ofNat (dcBit ||| ((sn >>> 16) &&& 0x3)), UInt8.ofNat ((sn >>> 8) &&& 0xff),
      UInt8.ofNat (sn &&& 0xff)]

/-- The PDU that `nr_pdcp_entity_recv_sdu` builds for the SDU of COUNT `count`. -/
def txPdu (cfg : PdcpConfig) (count : ℕ) (buffer : List UInt8) : List UInt8 :=
  let header := txHeader cfg (count &&& cfg.snMax)
  let mac :=
    if cfg.hasIntegrity then
      cfg.security.integrity cfg.rbId count cfg.txDirection (header ++ buffer)
    else List.replicate cfg.integritySize 0
  let payload := buffer ++ mac
  header ++
    if cfg.hasCiphering then cfg.security.cipher cfg.rbId count cfg.txDirection payload
    else payload

/-- `nr_pdcp_entity_recv_sdu`. -/
def recvSdu (cfg : PdcpConfig) (e : PdcpEntity) (buffer : List UInt8) (sduId : ℤ) :
    PdcpEntity × List Output :=
  ({ e with txNext := (e.txNext + 1) % 2 ^ 32 },
    [.deliverPdu (txPdu cfg e.txNext buffer) sduId])

/-! ## Time -/

/-- `check_t_reordering`. -/
def checkTReordering (cfg : PdcpConfig) (e : PdcpEntity) : PdcpEntity × List Output :=
  if cfg.tReordering = -1 then (e, [])
  else if e.tReorderingStart = 0 ∨
      (e.tCurrent : ℤ) ≤ Int.bmod (e.tReorderingStart + cfg.tReordering) (2 ^ 32) % 2 ^ 64 then
    (e, [])
  else
    let below := e.rxList.takeWhile (·.count < e.rxReord)
    let e :=
      { e with
        tReorderingStart := 0
        rxList := e.rxList.dropWhile (·.count < e.rxReord)
        rxSize := e.rxSize - (below.map (·.buffer.length)).sum }
    let (e, out) := deliverSdus e e.rxReord
    (startReordering e, below.map (fun sdu => .deliverSdu sdu.buffer) ++ out)

/-- `nr_pdcp_entity_set_time`. -/
def setTime (cfg : PdcpConfig) (e : PdcpEntity) (now : UInt64) : PdcpEntity × List Output :=
  checkTReordering cfg { e with tCurrent := now.toNat }

/-! ## Runs -/

inductive Call
  | recvPdu (buffer : List UInt8)
  | recvSdu (buffer : List UInt8) (sduId : ℤ)
  | setTime (now : UInt64)
deriving DecidableEq, Repr

/-- A call, by the configuration that is in effect. -/
def callEntity (cfg : PdcpConfig) (e : PdcpEntity) : Call → PdcpEntity × List Output
  | .recvPdu buffer => recvPdu cfg e buffer
  | .recvSdu buffer sduId => recvSdu cfg e buffer sduId
  | .setTime now => setTime cfg e now

/-- The entity as a machine; no call of it fails. -/
def pdcpStep (cfg : PdcpConfig) (e : PdcpEntity) (call : Call) :
    Except Empty (PdcpEntity × List Output) :=
  .ok (callEntity cfg e call)

/-- A run of the entity that `new_nr_pdcp_entity` returns. -/
def pdcpRun (cfg : PdcpConfig) (calls : List Call) : Except Empty (PdcpEntity × List Output) :=
  Machine.run (pdcpStep cfg) {} calls

end OaiCu.NrPdcp
