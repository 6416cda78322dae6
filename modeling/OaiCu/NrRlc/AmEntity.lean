import OaiCu.NrRlc.Pdu

/-!
# The RLC AM entity (`nr_rlc_entity_am.h`, `new_nr_rlc_entity_am`)

The runtime fields are kept in two records, the receiver and the transmitter: no
function of the source but `generate_pdu` and `set_time` works on both.
-/

namespace OaiCu.NrRlc

/-- The configuration of an AM entity. `new_nr_rlc_entity_am` exits on any other SN
field length, so the record carries that it is 12 or 18. -/
structure AmConfig where
  rxMaxsize : ℤ
  txMaxsize : ℤ
  tPollRetransmit : ℕ
  tReassembly : ℕ
  tStatusProhibit : ℕ
  /-- -1 means infinity. -/
  pollPdu : ℤ
  /-- -1 means infinity. -/
  pollByte : ℤ
  maxRetxThreshold : ℤ
  snFieldLength : ℕ
  snFieldLength_valid : snFieldLength = 12 ∨ snFieldLength = 18

def AmConfig.snModulus (cfg : AmConfig) : ℤ := 2 ^ cfg.snFieldLength

def AmConfig.windowSize (cfg : AmConfig) : ℤ := cfg.snModulus / 2

theorem AmConfig.snModulus_cases (cfg : AmConfig) :
    (cfg.snModulus = 4096 ∧ cfg.windowSize = 2048) ∨
      (cfg.snModulus = 262144 ∧ cfg.windowSize = 131072) := by
  unfold AmConfig.windowSize AmConfig.snModulus
  rcases cfg.snFieldLength_valid with h | h <;> rw [h] <;> norm_num

theorem AmConfig.snModulus_pos (cfg : AmConfig) : 0 < cfg.snModulus := by
  rcases cfg.snModulus_cases with h | h <;> omega

theorem AmConfig.snModulus_eq (cfg : AmConfig) : cfg.snModulus = 2 * cfg.windowSize := by
  rcases cfg.snModulus_cases with h | h <;> omega

theorem AmConfig.windowSize_pos (cfg : AmConfig) : 1 < cfg.windowSize := by
  rcases cfg.snModulus_cases with h | h <;> omega

theorem AmConfig.bits12_valid : 12 = 12 ∨ 12 = 18 := .inl rfl

/-- The configuration of the first test of `tests/`. -/
def testConfig : AmConfig where
  rxMaxsize := 100000
  txMaxsize := 100000
  tPollRetransmit := 45
  tReassembly := 35
  tStatusProhibit := 0
  pollPdu := -1
  pollByte := -1
  maxRetxThreshold := 8
  snFieldLength := 12
  snFieldLength_valid := AmConfig.bits12_valid

/-- The receiving side of an AM entity. -/
structure AmRx where
  rxNext : ℤ := 0
  rxNextStatusTrigger : ℤ := 0
  rxHighestStatus : ℤ := 0
  rxNextHighest : ℤ := 0
  statusTriggered : Bool := false
  /-- 0 means not running, as for the other timers. -/
  tReassemblyStart : ℕ := 0
  tStatusProhibitStart : ℕ := 0
  rxList : List Pdu := []
  rxSize : ℤ := 0

/-- The transmitting side of an AM entity. `heap` holds the SDUs numbered below
`nextSdu`, `nextSeg` is the address of the next list node, and `freed` keeps the
segments that were freed. -/
structure AmTx where
  txNext : ℤ := 0
  txNextAck : ℤ := 0
  pollSn : ℤ := 0
  pduWithoutPoll : ℤ := 0
  byteWithoutPoll : ℤ := 0
  forcePoll : Bool := false
  tLogBufferFull : ℕ := 0
  sduRejected : ℕ := 0
  tPollRetransmitStart : ℕ := 0
  txList : List Segment := []
  txEnd : Option ℕ := none
  txSize : ℤ := 0
  waitList : List Segment := []
  waitEnd : Option ℕ := none
  retransmitList : List Segment := []
  bstatusTxSize : ℤ := 0
  bstatusRetxSize : ℤ := 0
  heap : ℕ → Sdu := fun _ => newSdu [] 0
  nextSdu : ℕ := 0
  nextSeg : ℕ := 0
  freed : List Segment := []

/-- `nr_rlc_entity_am_t`. -/
structure AmEntity where
  cfg : AmConfig
  tCurrent : ℕ := 0
  rx : AmRx := {}
  tx : AmTx := {}

/-- `new_nr_rlc_entity_am`: everything not configured is zero. -/
def newAmEntity (cfg : AmConfig) : AmEntity := { cfg }

end OaiCu.NrRlc
