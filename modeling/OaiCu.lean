import OaiCu.Lib.Serial
import OaiCu.Lib.BitStream
import OaiCu.Lib.Lists
import OaiCu.Lib.Machine
import OaiCu.Lib.Sweep
import OaiCu.Lib.While
import OaiCu.Lib.Inverse
import OaiCu.NrRlc.Entity
import OaiCu.NrRlc.Pdu
import OaiCu.NrRlc.Reassembly
import OaiCu.NrRlc.AmEntity
import OaiCu.NrRlc.AmRx
import OaiCu.NrRlc.AmRxInv
import OaiCu.NrRlc.AmTx
import OaiCu.NrRlc.AmControl
import OaiCu.NrRlc.AmMerge
import OaiCu.NrRlc.AmParts
import OaiCu.NrRlc.AmPoll
import OaiCu.NrRlc.AmTxInv
import OaiCu.NrRlc.AmTxStep
import OaiCu.NrRlc.AmMergeInv
import OaiCu.NrRlc.AmControlInv
import OaiCu.NrRlc.AmSegments
import OaiCu.NrRlc.AmSweep
import OaiCu.NrRlc.AmErr
import OaiCu.NrRlc.AmTail
import OaiCu.NrRlc.AmFate
import OaiCu.NrRlc.AmRun
import OaiCu.NrRlc.AmRxSize
import OaiCu.NrRlc.AmDuplicates
import OaiCu.NrRlc.AmStatusSize
import OaiCu.NrRlc.UmEntity
import OaiCu.NrRlc.PduFields
import OaiCu.NrRlc.AmContents
import OaiCu.NrRlc.UmSize
import OaiCu.NrRlc.UmTimer
import OaiCu.NrRlc.UmContents
import OaiCu.NrRlc.Tm
import OaiCu.NrRlc.ReassemblyBounds
import OaiCu.Sdap.Entity
import OaiCu.Sdap.Store
import OaiCu.NrPdcp.Entity
import OaiCu.NrPdcp.Reordering
import OaiCu.NrPdcp.Window
import OaiCu.NrPdcp.ReorderingTimer
import OaiCu.NrPdcp.Integrity
import OaiCu.NrPdcp.Transfer
import OaiCu.NrPdcp.SetSecurity
import OaiCu.NrPdcp.RxSize
import OaiCu.Gtpu.Tunnels
import OaiCu.Gtpu.Consistency
import OaiCu.Gtpu.PacketBounds
import OaiCu.Gtpu.PacketHeader
import OaiCu.OduRlc.AmUl
import OaiCu.OduRlc.Losses
import OaiCu.OduRlc.Runs
import OaiCu.OduRlc.StatusSound
import OaiCu.OduRlc.StatusBurst
import OaiCu.OduRlc.StatusExact
import OaiCu.OduRlc.StatusPdu
import OaiCu.OduRlc.Shares
import OaiCu.OduRlc.AmDl
import OaiCu.OduRlc.StatusDecode
import OaiCu.OduRlc.StatusReceived
import OaiCu.OduRlc.StatusRoundTrip
import OaiCu.OduRlc.StatusSize
import OaiCu.OduRlc.Segments
import OaiCu.OduRlc.UmUl
import OaiCu.OduRlc.UmUlScan
import OaiCu.OduRlc.UmUlWindow
import OaiCu.OduRlc.UmUlCycle
import OaiCu.OduRlc.UmUlRuns
import OaiCu.OduRlc.UmDl
import OaiCu.OduRlc.UmTransfer
import OaiCu.OduRlc.UmRoundTrip
import OaiCu.OduRlc.AmRecv
import OaiCu.OduRlc.AmRecvWindow
import OaiCu.OduRlc.AmRecvStep
import OaiCu.OduRlc.AmRecvRuns
import OaiCu.OduRlc.DlRejected
import OaiCu.Lib.Blocks
import OaiCu.OduSch.Prb
import OaiCu.OduSch.PrbBits
import OaiCu.OduSch.PrbRuns
import OaiCu.OduSch.PrbLookup
import OaiCu.OduSch.Reserved
import OaiCu.OduSch.Broadcast
import OaiCu.OduSch.Cfra
import OaiCu.OduSch.Paging
import OaiCu.Lib.Search
import OaiCu.OduSch.TddDirection
import OaiCu.OduSch.RaReq
import OaiCu.OduSch.RaGrants
import OaiCu.OduSch.PendingUes
import OaiCu.OduSch.PendingList
import OaiCu.OduSch.TbSize
import OaiCu.OduSch.TbSizeStandard
import OaiCu.OduSch.TbSizeRight
import OaiCu.OduSch.NumPrb
import OaiCu.OduSch.LcList
import OaiCu.OduSch.EstimateSizes
import OaiCu.OduSch.UlGrant
import OaiCu.OduSch.DlGrant
import OaiCu.OduSch.UlDemand
import OaiCu.OduSch.UlConserved
import OaiCu.OduSch.UlRuns
import OaiCu.OduSch.LcPrbEstimate
import OaiCu.OduSch.DlDemand
import OaiCu.OduSch.DlConserved
import OaiCu.OduSch.DlRuns
import OaiCu.OduSch.RrmPolicy
import OaiCu.OduSch.RrmPolicyRight
import OaiCu.OduMac.Demux
import OaiCu.OduMac.Mux
import OaiCu.OduMac.DemuxSafe
import OaiCu.OduMac.MuxBlock
import OaiCu.OduMac.MuxDemux
import OaiCu.OduMac.Msg4
import OaiCu.OduMac.Dci
import OaiCu.OduMac.DciRight
import OaiCu.Lib.LinkedCells
import OaiCu.NrMac.NrList
import OaiCu.NrMac.HarqLists
import OaiCu.NrMac.UlHarq
import OaiCu.NrMac.UlHarqStep
import OaiCu.NrMac.DlHarq
import OaiCu.NrMac.DlHarqStep
import OaiCu.NrMac.DlHarqRuns
import OaiCu.Lib.EvenSpacing
import OaiCu.Lib.Interleaver
import OaiCu.NrMac.Pdcch
import OaiCu.NrMac.PdcchPositions
import OaiCu.Lib.Crc
import OaiCu.Lib.BitSums
import OaiCu.NrPolar.Params
import OaiCu.NrPolar.Plain
import OaiCu.NrPolar.Tables
import OaiCu.NrPolar.Crc24
import OaiCu.NrPolar.Fast
import OaiCu.NrPolar.Codes
import OaiCu.NrPolar.FastPlain
import OaiCu.Lib.CyclicTime
import OaiCu.OduSch.RaWindow
import OaiCu.Lib.Latch
import OaiCu.OduSch.TimingTables
import OaiCu.OduSch.TimingTablesRight
import OaiCu.OduSch.SliceCfg
import OaiCu.OduMac.Rar
import OaiCu.NrMac.FindHarq
import OaiCu.Lib.Scan
import OaiCu.NrMac.SemiStatic
import OaiCu.NrMac.PdcchIndex
import OaiCu.NrMac.Retransmission
import OaiCu.NrMac.RetransmissionRight
import OaiCu.Lib.Ledger
import OaiCu.NrMac.UlBytes
import OaiCu.Lib.Chunks
import OaiCu.NrMac.MacPdu
import OaiCu.NrMac.UlMacPdu
import OaiCu.NrMac.UlMacPduRight
import OaiCu.Lib.Memory
import OaiCu.NrMac.DlCe
import OaiCu.NrMac.DlMacPdu
import OaiCu.Lib.Quantise
import OaiCu.Lib.Bisect
import OaiCu.NrMac.Tbs
import OaiCu.NrMac.TbsRight
import OaiCu.NrMac.FindNbRb
import OaiCu.NrMac.CsiReporting
import OaiCu.NrMac.CsiReportingRight
import OaiCu.NrMac.Acknack
import OaiCu.NrMac.AcknackEnds
import OaiCu.NrLdpc.RateMatching
import OaiCu.NrLdpc.RateMatchingRight
import OaiCu.Lib.CountedCells
import OaiCu.NrPolar.InfoBits
import OaiCu.NrPolar.InfoBitsRight
import OaiCu.Lib.BitPatch
import OaiCu.LteRlc.AmRx
import OaiCu.LteRlc.AmStatus
import OaiCu.LteRlc.AmStatusRight
import OaiCu.NrMac.GetY
import OaiCu.OduSch.PrbWords
import OaiCu.NrMac.NrListRuns
import OaiCu.NrMac.UlFreeRun
import OaiCu.Lib.CrcPoly
import OaiCu.NrLdpc.CrcByte
import OaiCu.NrLdpc.SegmentationRight
import OaiCu.LteMac.SlicingRun
import OaiCu.LteMac.StaticSched
