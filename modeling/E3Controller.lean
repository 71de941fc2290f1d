import E3Controller.LabelledRun
import E3Controller.RunMeasure
import E3Controller.SpscRing
import E3Controller.MemoryReads
import E3Controller.BitString
import E3Controller.MonotoneFloor
import E3Controller.CString
import E3Controller.HalfFloat
import E3Controller.HalfRounding
import E3Controller.Config
import E3Controller.ConfigLoader
import E3Controller.ConfigFields
import E3Controller.ConfigCoverage
import E3Controller.ShmRegion
import E3Controller.RegionOpen
import E3Controller.RowConversion
import E3Controller.RowWriters
import E3Controller.RowAccesses
import E3Controller.RingWriter
import E3Controller.Int16Row
import E3Controller.L1KpmIndication
import E3Controller.SlotApi
import E3Controller.RegionNames
import E3Controller.RegionLifetimes
import E3Controller.PipelineModel
import E3Controller.PipelineMoves
import E3Controller.PipelineInvariant
import E3Controller.PipelineFlow
import E3Controller.PipelineSession
import E3Controller.PipelineStop
import E3Controller.PipelineLifecycle
import E3Controller.PipelineConfigDelivery
import E3Controller.PipelineProgress
import E3Controller.PipelineFeed
import E3Controller.Dispatcher
import E3Controller.ControllerModel
import E3Controller.ControllerRefinement
import E3Controller.ControllerShutdown
import E3Controller.StageTrace
import E3Controller.UplinkCodelet
import E3Controller.SlotSelection
import E3Controller.Layer1
import E3Controller.Layer1Runs
import E3Controller.DropAccounting
import E3Controller.DropReports
import E3Controller.AntennaBacking
import E3Controller.RowRetention
import E3Controller.Announcing
import E3Controller.SlotPath
import E3Controller.BfpDecompress
import E3Controller.EcpriCodelet
import E3Controller.EcpriFrames
import E3Controller.EcpriPayload
import E3Controller.EcpriSampling
import E3Controller.SectionPipeline
import E3Controller.SpectrumIndication
import E3Controller.SpectrumPath
import E3Controller.ServiceModels
import E3Controller.SlotAccounting
import E3Controller.SlotLinearization
import E3Controller.SpectrumLinearization
import E3Controller.SpectrumControl
import E3Controller.StageStream
