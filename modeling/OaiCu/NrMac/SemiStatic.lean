import Mathlib.Data.Nat.Notation

/-!
# Semi-static parameters of PDSCH and PUSCH

As long as the time domain allocation stays the same, the symbols, the MCS table and the DMRS of a UE
are kept and not computed again. `nr_set_pdsch_semi_static` and `nr_set_pusch_semi_static` set them;
the tables of the DMRS positions and of the MCS tables are given with the configuration.
-/

namespace OaiCu.NrMac

/-- An entry of a time domain allocation list. The start and length are those of the SLIV. -/
structure TimeDomainAllocation where
  typeB : Bool
  startSymbolIndex : ℕ
  nrOfSymbols : ℕ
  symbols_le : startSymbolIndex + nrOfSymbols ≤ 14

/-! ## PDSCH -/

/-- NR_pdsch_semi_static_t. -/
structure PdschSemiStatic where
  timeDomainAllocation : ℕ
  numDmrsCdmGrpsNoData : ℕ
  frontloadedSymb : ℕ
  typeB : Bool
  startSymbolIndex : ℕ
  nrOfSymbols : ℕ
  nrOfLayers : ℕ
  mcsTableIdx : ℕ
  dmrsPortsId : ℕ
  nPrbDmrs : ℕ
  nDmrsSlot : ℕ
  dlDmrsSymbPos : ℕ
  dmrsConfigType : ℕ
  deriving DecidableEq, Repr

/-- A PDSCH-Config: which mapping types have a DMRS type, and the MCS table. -/
structure PdschConfig where
  dmrsTypeA : Bool
  dmrsTypeB : Bool
  mcsTable : Option ℕ

/-- What nr_set_pdsch_semi_static reads of the configuration of a UE. -/
structure PdschCfg where
  rrcProcessingTimer : ℕ
  pdschConfig : Option PdschConfig
  tdaList : ℕ → TimeDomainAllocation
  dciFormat11 : Bool
  fillDmrsMask : ℕ → ℕ → Bool → ℕ → ℕ

/-- get_num_dmrs. -/
def getNumDmrs (dmrsMask : ℕ) : ℕ := (List.range 16).countP fun i => dmrsMask.testBit i

/-- set_dl_dmrs_ports. There are one to four layers. -/
def setDlDmrsPorts (ps : PdschSemiStatic) : PdschSemiStatic :=
  match ps.nrOfLayers with
  | 1 => { ps with dmrsPortsId := 0, numDmrsCdmGrpsNoData := 1, frontloadedSymb := 1 }
  | 2 => { ps with dmrsPortsId := 2, numDmrsCdmGrpsNoData := 1, frontloadedSymb := 1 }
  | 3 => { ps with dmrsPortsId := 9, numDmrsCdmGrpsNoData := 2, frontloadedSymb := 1 }
  | 4 => { ps with dmrsPortsId := 10, numDmrsCdmGrpsNoData := 2, frontloadedSymb := 1 }
  | _ => ps

/-- The MCS table is not changed while the timer runs. -/
def PdschCfg.setMcsTable (cfg : PdschCfg) (ps : PdschSemiStatic) : PdschSemiStatic :=
  if cfg.rrcProcessingTimer = 0 then
    { ps with
      mcsTableIdx := match cfg.pdschConfig.bind PdschConfig.mcsTable with
        | some table => if table = 0 then 1 else 2
        | none => 0 }
  else ps

/-- The symbols of the allocation, and the type of its DMRS. -/
def PdschCfg.setAllocation (cfg : PdschCfg) (tda : ℕ) (ps : PdschSemiStatic) : PdschSemiStatic :=
  { ps with
    timeDomainAllocation := tda
    typeB := (cfg.tdaList tda).typeB
    dmrsConfigType := match cfg.pdschConfig with
      | some c => if (cfg.tdaList tda).typeB then c.dmrsTypeB.toNat else c.dmrsTypeA.toNat
      | none => 0
    startSymbolIndex := (cfg.tdaList tda).startSymbolIndex
    nrOfSymbols := (cfg.tdaList tda).nrOfSymbols }

/-- The layers and ports: DCI format 1_0 has one layer. -/
def PdschCfg.setLayers (cfg : PdschCfg) (layers : ℕ) (ps : PdschSemiStatic) : PdschSemiStatic :=
  if !cfg.dciFormat11 then
    { ps with
      numDmrsCdmGrpsNoData := if ps.nrOfSymbols = 2 then 1 else 2
      dmrsPortsId := 0
      frontloadedSymb := 1
      nrOfLayers := 1 }
  else if ps.nrOfLayers ≠ layers ∨ ps.numDmrsCdmGrpsNoData = 0 then
    setDlDmrsPorts { ps with nrOfLayers := layers }
  else ps

/-- The positions of the DMRS. They are always set. -/
def PdschCfg.setDmrs (cfg : PdschCfg) (ps : PdschSemiStatic) : PdschSemiStatic :=
  let pos := cfg.fillDmrsMask ps.nrOfSymbols ps.startSymbolIndex ps.typeB ps.frontloadedSymb
  { ps with
    nPrbDmrs := ps.numDmrsCdmGrpsNoData * if ps.dmrsConfigType = 0 then 6 else 4
    dlDmrsSymbPos := pos
    nDmrsSlot := getNumDmrs pos }

/-- nr_set_pdsch_semi_static. -/
def PdschCfg.setPdschSemiStatic (cfg : PdschCfg) (tda layers : ℕ) (ps : PdschSemiStatic) :
    PdschSemiStatic :=
  cfg.setDmrs (cfg.setLayers layers (cfg.setAllocation tda (cfg.setMcsTable ps)))

@[simp] theorem setDlDmrsPorts_timeDomainAllocation (ps : PdschSemiStatic) :
    (setDlDmrsPorts ps).timeDomainAllocation = ps.timeDomainAllocation := by
  rw [setDlDmrsPorts]
  split <;> rfl

@[simp] theorem PdschCfg.setLayers_timeDomainAllocation (cfg : PdschCfg) (layers : ℕ)
    (ps : PdschSemiStatic) :
    (cfg.setLayers layers ps).timeDomainAllocation = ps.timeDomainAllocation := by
  rw [setLayers]
  split
  · rfl
  · split
    · exact setDlDmrsPorts_timeDomainAllocation _
    · rfl

/-- The parameters are those of the allocation that was asked for. -/
@[simp] theorem PdschCfg.setPdschSemiStatic_timeDomainAllocation (cfg : PdschCfg) (tda layers : ℕ)
    (ps : PdschSemiStatic) :
    (cfg.setPdschSemiStatic tda layers ps).timeDomainAllocation = tda :=
  cfg.setLayers_timeDomainAllocation layers _

/-! ## PUSCH -/

/-- The formats of an uplink DCI. -/
inductive UlDciFormat
  | format00
  | format01
  deriving DecidableEq, Repr

/-- A DMRS-UplinkConfig: is there a DMRS type, the additional position, and is there a maximum
length. -/
structure DmrsUplinkConfig where
  dmrsType : Bool
  dmrsAdditionalPosition : Option ℕ
  maxLength : Bool
  deriving DecidableEq, Repr

/-- A PUSCH-Config. A transform precoder is enabled (0) or disabled (1). -/
structure PuschConfig where
  transformPrecoder : Option ℕ
  mcsTable : Option ℕ
  mcsTableTransformPrecoder : Option ℕ
  dmrsMappingTypeA : DmrsUplinkConfig
  dmrsMappingTypeB : DmrsUplinkConfig
  deriving DecidableEq, Repr

/-- NR_pusch_semi_static_t. -/
structure PuschSemiStatic where
  dciFormat : UlDciFormat
  timeDomainAllocation : ℕ
  nrOfLayers : ℕ
  numDmrsCdmGrpsNoData : ℕ
  startSymbolIndex : ℕ
  nrOfSymbols : ℕ
  puschConfig : Option PuschConfig
  transformPrecoding : ℕ
  mcsTable : ℕ
  typeB : Bool
  dmrsUplinkConfig : Option DmrsUplinkConfig
  dmrsConfigType : ℕ
  ulDmrsSymbPos : ℕ
  numDmrsSymb : ℕ
  nPrbDmrs : ℕ
  deriving DecidableEq, Repr

/-- What nr_set_pusch_semi_static reads of the configuration of a UE: the PUSCH-Config of its BWP and
of its initial BWP, the allocations, and whether the cell has a msg3-transformPrecoder. -/
structure PuschCfg where
  ubwpPuschConfig : Option PuschConfig
  ubwpdPuschConfig : Option PuschConfig
  tdaList : ℕ → TimeDomainAllocation
  msg3TransformPrecoder : Bool
  getPuschMcsTable : Option ℕ → Bool → UlDciFormat → ℕ
  getLPrime : ℕ → Bool → ℕ → ℕ → ℕ → ℕ

/-- pos3 of dmrs-AdditionalPosition. -/
def dmrsAdditionalPositionPos3 : ℕ := 2

/-- additional_pos of nr_set_pusch_semi_static. -/
def DmrsUplinkConfig.additionalPos : Option DmrsUplinkConfig → ℕ
  | none => 2
  | some c =>
      match c.dmrsAdditionalPosition with
      | none => 2
      | some pos => if pos = dmrsAdditionalPositionPos3 then 3 else pos

/-- pusch_maxLength of nr_set_pusch_semi_static. -/
def DmrsUplinkConfig.puschMaxLength : Option DmrsUplinkConfig → ℕ
  | none => 1
  | some c => if c.maxLength then 2 else 1

/-- nr_set_pusch_semi_static. All fields are set, and nothing is read of what they were. -/
def PuschCfg.setPuschSemiStatic (cfg : PuschCfg) (dciFormat : UlDciFormat) (tda : ℕ)
    (numDmrsCdmGrpsNoData nrOfLayers : ℕ) : PuschSemiStatic :=
  let tdaEntry := cfg.tdaList tda
  let puschConfig := cfg.ubwpPuschConfig.or cfg.ubwpdPuschConfig
  let transformPrecoding := (puschConfig.bind PuschConfig.transformPrecoder).getD
    (!cfg.msg3TransformPrecoder).toNat
  -- without data in the symbols of the DMRS if the transform precoding is on
  let num := if transformPrecoding ≠ 0 then numDmrsCdmGrpsNoData else 2
  let dmrs := puschConfig.map fun c =>
    if tdaEntry.typeB then c.dmrsMappingTypeB else c.dmrsMappingTypeA
  let dmrsConfigType := (dmrs.map fun c => c.dmrsType.toNat).getD 0
  let pos := cfg.getLPrime tdaEntry.nrOfSymbols tdaEntry.typeB (DmrsUplinkConfig.additionalPos dmrs)
    (DmrsUplinkConfig.puschMaxLength dmrs) tdaEntry.startSymbolIndex
  { dciFormat := dciFormat
    timeDomainAllocation := tda
    nrOfLayers := nrOfLayers
    numDmrsCdmGrpsNoData := num
    startSymbolIndex := tdaEntry.startSymbolIndex
    nrOfSymbols := tdaEntry.nrOfSymbols
    puschConfig := puschConfig
    transformPrecoding := transformPrecoding
    mcsTable :=
      if transformPrecoding ≠ 0 then
        cfg.getPuschMcsTable (puschConfig.bind PuschConfig.mcsTable) false dciFormat
      else
        cfg.getPuschMcsTable (puschConfig.bind PuschConfig.mcsTableTransformPrecoder) true dciFormat
    typeB := tdaEntry.typeB
    dmrsUplinkConfig := dmrs
    dmrsConfigType := dmrsConfigType
    ulDmrsSymbPos := pos
    numDmrsSymb := (List.range' tdaEntry.startSymbolIndex tdaEntry.nrOfSymbols).countP fun i =>
      pos.testBit i
    nPrbDmrs := if dmrsConfigType = 0 then num * 6 else num * 4 }

end OaiCu.NrMac
