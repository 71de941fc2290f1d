import E3Controller.Config

/-!
# Messages between gNB, codelets and controller

The wire records of `jbpf_e3_slot_api.h` and `ecpri_iq_data.h`, the pipeline
configurations, and the control-input messages a pipeline composes from its
configuration. Reserved padding is left out.
-/

namespace E3Controller
namespace SlotApi

open CString Config

def slotBytes2P : ℕ := 366912
def slotBytes4P : ℕ := 733824
def slotBytes8P : ℕ := 1467648

structure E3SlotSel where
  version : UInt16 := 0
  nofSlotsPerFrame : UInt16 := 0
  slotMask : UInt64 := 0
  sfnMod : UInt16 := 0
  sfnOffset : UInt16 := 0
  deriving DecidableEq, Repr

def slotSelVersion : UInt16 := 1

/-- `struct e3_shm_cfg`: where to publish. `name` is the 64-char array. -/
structure E3ShmCfg where
  version : UInt16
  epoch : UInt16
  name : List UInt8
  nofSymbols : UInt16
  nofSubcarriers : UInt16
  scale : F32
  deriving DecidableEq, Repr

def shmCfgVersion : UInt16 := 1
def shmCfgNameLen : ℕ := 64

structure E3SlotDesc where
  gnbTsNs : UInt64 := 0
  codeletEntryTsNs : UInt64 := 0
  codeletTsNs : UInt64 := 0
  bytesWritten : UInt32 := 0
  fhWriteIndex : UInt32 := 0
  fhBufferIndex : UInt8 := 0
  flags : UInt8 := 0
  sfn : UInt16 := 0
  subframeId : UInt16 := 0
  slotId : UInt16 := 0
  sectorId : UInt16 := 0
  nofPorts : UInt16 := 0
  nofSymbols : UInt16 := 0
  nofSubcarriers : UInt16 := 0
  deriving DecidableEq, Repr

def flagTruncated : UInt8 := 0x01
def flagFiltered : UInt8 := 0x02

/-- `struct iq_sample_data`: one section of the older eCPRI path. -/
structure IqSampleData where
  gnbTsNs : UInt64 := 0
  codeletTsNs : UInt64 := 0
  timestamp : UInt64 := 0
  direction : UInt8 := 0
  frameId : UInt8 := 0
  compMethod : UInt8 := 0
  iqWidth : UInt8 := 0
  subframeId : UInt16 := 0
  slotId : UInt16 := 0
  symbolId : UInt16 := 0
  sectionId : UInt16 := 0
  startPrbu : UInt16 := 0
  numPrbu : UInt16 := 0
  payloadSize : UInt16 := 0
  iqPayload : List UInt8 := []
  deriving DecidableEq, Repr

structure PrbFilterConfig where
  expectedNumPrbu : UInt16
  deriving DecidableEq, Repr

structure SlotPipelineConfig where
  codeletBasePath : Str := []
  writer : ShmWriter := .controller
  shmName : Str := str "/e3_ran_buffers"
  radio : RadioGeometry := {}
  cbf16Scale : F32 := 0x3f800000
  shmEpoch : UInt16 := 1
  deriving DecidableEq, Repr

structure IqPipelineConfig where
  codeletBasePath : Str := []
  expectedNumPrbu : UInt16 := 106
  deriving DecidableEq, Repr

/-- The slot pipeline's configuration as `main` fills it in: every field but
the epoch is copied from the controller configuration. -/
def slotPipelineConfig (config : ControllerConfig) : SlotPipelineConfig where
  codeletBasePath := config.jbpf.codeletBasePath
  writer := config.shm.writer
  shmName := config.shm.name
  radio := config.radio
  cbf16Scale := config.shm.cbf16Scale

def iqPipelineConfig (config : ControllerConfig) : IqPipelineConfig where
  codeletBasePath := config.jbpf.codeletBasePath
  expectedNumPrbu := config.radio.nofPrbs

/-- The `e3_shm_cfg` that `maybe_send_shm_cfg` composes. -/
def shmCfgMessage (config : SlotPipelineConfig) : E3ShmCfg where
  version := shmCfgVersion
  epoch := config.shmEpoch
  name := charArray shmCfgNameLen config.shmName
  nofSymbols := config.radio.nofSymbols
  nofSubcarriers := config.radio.nofSubcarriers.toUInt16
  scale := config.cbf16Scale

/-- The default selector that follows it: publish every slot of every frame. -/
def slotSelMessage (config : SlotPipelineConfig) : E3SlotSel where
  version := slotSelVersion
  nofSlotsPerFrame := config.radio.slotsPerFrame.toUInt16

inductive SlotMessage
  | shmCfg (cfg : E3ShmCfg)
  | slotSel (sel : E3SlotSel)
  deriving DecidableEq, Repr

end SlotApi
end E3Controller
